import Audesys.Hal.Encoding
import Audesys.Runtime.Ipc.Connection
import Audesys.Runtime.Ipc.Utf8

/-!
# `Runtime.Client.Snapshot` — the client reads a snapshot

The other end of `SIGNAL_SNAPSHOT` (`audesys-runtime-client`). Entries follow each other without separators,
so the client's `decode_hal_value` reports how many bytes a value took. That count is the length of what the
server wrote, whatever follows (`decode_front`), and a whole response decodes to the list it was built from.
The helpers `need`, `read4`, `read8` and `pin_type_from_disc` are the same text in both crates.
-/

open List

namespace Audesys.Runtime.Client

open Audesys.Hal Audesys.Runtime.Ipc

variable [Target]

/-! ## Values -/

/-- An integer or a float of `n` bytes behind its discriminant. -/
def decodeFixed (n : Nat) (value : List UInt8 → HalValue) (rest : List UInt8) : Except String (HalValue × Nat) := do
  let bytes ← readN rest n
  .ok (value bytes, 1 + n)

/-- Data behind a length field, and its length. -/
def decodeSized (rest : List UInt8) : Except String (List UInt8 × Nat) := do
  need rest 4
  let len := MachineInt.leNat (rest.take 4)
  need rest (4 + len)
  .ok ((rest.drop 4).take len, len)

/-- `decode_hal_value`, with the number of bytes it consumed. -/
def decodeHalValue (data : List UInt8) : Except String (HalValue × Nat) :=
  match data with
  | [] => .error "empty value data"
  | typeDisc :: rest =>
    if typeDisc = 0 then .ok (.bool (rest.headD 0 != 0), 2)
    else if typeDisc = 1 then decodeFixed 1 (fun bs => .s8 (MachineInt.ofLeBytes bs)) rest
    else if typeDisc = 2 then decodeFixed 1 (fun bs => .u8 (MachineInt.ofLeBytes bs)) rest
    else if typeDisc = 3 then decodeFixed 2 (fun bs => .s16 (MachineInt.ofLeBytes bs)) rest
    else if typeDisc = 4 then decodeFixed 2 (fun bs => .u16 (MachineInt.ofLeBytes bs)) rest
    else if typeDisc = 5 then decodeFixed 4 (fun bs => .s32 (MachineInt.ofLeBytes bs)) rest
    else if typeDisc = 6 then decodeFixed 4 (fun bs => .u32 (MachineInt.ofLeBytes bs)) rest
    else if typeDisc = 7 then decodeFixed 8 (fun bs => .s64 (MachineInt.ofLeBytes bs)) rest
    else if typeDisc = 8 then decodeFixed 8 (fun bs => .u64 (MachineInt.ofLeBytes bs)) rest
    else if typeDisc = 9 then decodeFixed 4 (fun bs => .f32 (FloatFormat.ofLeBytes bs)) rest
    else if typeDisc = 10 then decodeFixed 8 (fun bs => .f64 (FloatFormat.ofLeBytes bs)) rest
    else if typeDisc = 11 then do
      let (bytes, len) ← decodeSized rest
      .ok (.blob bytes, 5 + len)
    else if typeDisc = 12 then do
      let (bytes, len) ← decodeSized rest
      let s ← fromUtf8 bytes
      .ok (.string s, 5 + len)
    else if typeDisc = 0xFE then do
      need rest 4
      let len := MachineInt.leNat (rest.take 4)
      need rest (4 + 1 + len)
      let elem ← pinTypeFromDisc ((rest.drop 4).headD 0)
      .ok (.array elem ((rest.drop 5).take len), 6 + len)
    else .error ("unknown pin type discriminant: " ++ toString typeDisc.toNat)

/-! ## Snapshots -/

/-- The loop of `decode_snapshot_response`: `k` more entries from `offset` on. -/
def decodeEntries (data : List UInt8) : Nat → Nat → Except String (List (String × HalValue))
  | 0, _ => .ok []
  | k + 1, offset =>
    if offset + 2 > data.length then .error "snapshot: truncated name_len"
    else
      let nameLen := MachineInt.leNat ((data.drop offset).take 2)
      let offset := offset + 2
      if offset + nameLen > data.length then .error "snapshot: truncated name"
      else do
        let name := lossyString ((data.drop offset).take nameLen)
        let offset := offset + nameLen
        let (value, consumed) ← decodeHalValue (data.drop offset)
        let results ← decodeEntries data k (offset + consumed)
        .ok ((name, value) :: results)

/-- `decode_snapshot_response`. -/
def decodeSnapshotResponse (data : List UInt8) : Except String (List (String × HalValue)) :=
  if data.length < 2 then .error "snapshot response too short"
  else decodeEntries data (MachineInt.leNat (data.take 2)) 2

/-! ## Reading behind a prefix -/

omit [Target] in
theorem need_append {l : List UInt8} {n : Nat} (s : List UInt8) (h : n ≤ l.length) : need (l ++ s) n = .ok () := by
  unfold need
  rw [if_neg (by rw [length_append]; omega)]

/-- A fixed number of bytes behind a discriminant. -/
theorem decodeFixed_append (value : List UInt8 → HalValue) {bytes : List UInt8} {n : Nat} (disc : UInt8)
    (s : List UInt8) (h : bytes.length = n) :
    decodeFixed n value (bytes ++ s) = .ok (value bytes, (disc :: bytes).length) := by
  unfold decodeFixed readN
  rw [need_append s (Nat.le_of_eq h.symm), take_left' h, length_cons, h, Nat.add_comm]
  rfl

theorem decodeFixed_int {α : Type} [MachineInt α] [LawfulMachineInt α] (value : α → HalValue) (a : α) (disc : UInt8)
    (s : List UInt8) : decodeFixed (MachineInt.width α / 8) (fun bs => value (MachineInt.ofLeBytes bs))
      (MachineInt.toLeBytes a ++ s) = .ok (value a, (disc :: MachineInt.toLeBytes a).length) := by
  rw [decodeFixed_append _ disc s (length_toLeBytes a), ofLeBytes_toLeBytes]

omit [Target] in
theorem decodeSized_append {data : List UInt8} (s : List UInt8) (h : data.length < 2 ^ 32) :
    decodeSized (encodeSized data ++ s) = .ok (data, data.length) := by
  have hfield := length_leBytes 4 data.length
  have hstream : encodeSized data ++ s = MachineInt.leBytes 4 data.length ++ (data ++ s) := by
    rw [encodeSized, List.append_assoc]
  have hlength : (encodeSized data).length = 4 + data.length := by
    rw [encodeSized, length_append, hfield]
  unfold decodeSized
  rw [need_append s (by omega)]
  simp only [bind, Except.bind]
  rw [hstream, take_left' hfield, leNat_lengthField h, ← hstream, need_append s (by omega), hstream,
    drop_left' hfield, take_left' rfl]

omit [Target] in
theorem pinTypeFromDisc_discriminant (t : HalPinType) : pinTypeFromDisc (pinTypeDiscriminant t) = .ok t := by
  cases t <;> rfl

theorem decodeArray_append (t : HalPinType) {data : List UInt8} (s : List UInt8) (h : data.length < 2 ^ 32) :
    decodeHalValue (encodeHalValue (.array t data) ++ s) = .ok (.array t data, 6 + data.length) := by
  have hfield := length_leBytes 4 data.length
  have hrest : (MachineInt.leBytes 4 data.length ++ pinTypeDiscriminant t :: data).length = 4 + 1 + data.length := by
    rw [length_append, length_cons, hfield]
    omega
  have hstream : (MachineInt.leBytes 4 data.length ++ pinTypeDiscriminant t :: data) ++ s =
      MachineInt.leBytes 4 data.length ++ (pinTypeDiscriminant t :: (data ++ s)) := by
    rw [List.append_assoc, cons_append]
  have hdrop : (MachineInt.leBytes 4 data.length ++ (pinTypeDiscriminant t :: (data ++ s))).drop 5 = data ++ s := by
    rw [← drop_drop (i := 1) (j := 4), drop_left' hfield, drop_succ_cons, drop_zero]
  simp +decide only [encodeHalValue, decodeHalValue, cons_append, if_false, if_true]
  rw [need_append s (by omega)]
  simp only [bind, Except.bind]
  rw [hstream, take_left' hfield, leNat_lengthField h, ← hstream, need_append s (by omega), hstream,
    drop_left' hfield, hdrop, headD_cons, pinTypeFromDisc_discriminant, take_left' rfl]

omit [Target] in
theorem length_encodeSized (disc : UInt8) (data : List UInt8) : (disc :: encodeSized data).length = 5 + data.length := by
  rw [length_cons, encodeSized, length_append, length_leBytes]
  omega

/-- **Prefix decoding.** The client decodes what the server encoded, and counts its bytes, whatever follows. -/
theorem decode_front [LawfulTarget] {v : HalValue} (h : v.Fits) (s : List UInt8) :
    decodeHalValue (encodeHalValue v ++ s) = .ok (v, (encodeHalValue v).length) := by
  cases v
  case array t data =>
    rw [decodeArray_append t s h, encodeHalValue, length_cons, length_append, length_cons, length_leBytes]
    congr 2
    omega
  -- the discriminant selects the branch of the variant
  all_goals simp +decide only [encodeHalValue, decodeHalValue, pinTypeDiscriminant, cons_append, if_false, if_true]
  case bool b => cases b <;> rfl
  case s8 n => exact decodeFixed_int .s8 n 1 s
  case u8 n => exact decodeFixed_int .u8 n 2 s
  case s16 n => exact decodeFixed_int .s16 n 3 s
  case u16 n => exact decodeFixed_int .u16 n 4 s
  case s32 n => exact decodeFixed_int .s32 n 5 s
  case u32 n => exact decodeFixed_int .u32 n 6 s
  case s64 n => exact decodeFixed_int .s64 n 7 s
  case u64 n => exact decodeFixed_int .u64 n 8 s
  case f32 x => rw [decodeFixed_append _ 9 s (LawfulTarget.f32_length x), LawfulTarget.f32_bytes]
  case f64 x => rw [decodeFixed_append _ 10 s (LawfulTarget.f64_length x), LawfulTarget.f64_bytes]
  case blob data =>
    rw [decodeSized_append s h, length_encodeSized]
    rfl
  case string str =>
    rw [decodeSized_append s h, length_encodeSized]
    simp only [bind, Except.bind, fromUtf8, fromUTF8?_toList]

/-! ## Whole snapshots -/

/-- What the server sends: the count, then the entries. -/
def snapshotPayload (signals : List (String × HalValue)) : List UInt8 :=
  MachineInt.leBytes 2 signals.length ++ signals.flatMap snapshotEntry

/-- Names and data whose lengths fit their fields. -/
def EntryFits (entry : String × HalValue) : Prop := (text entry.1).length ≤ 65535 ∧ entry.2.Fits

omit [Target] in
theorem leNat_shortField {n : Nat} (h : n ≤ 65535) : MachineInt.leNat (MachineInt.leBytes 2 n) = n := by
  rw [leNat_leBytes]
  exact Nat.mod_eq_of_lt (by omega)

theorem decodeEntries_flatMap [LawfulTarget] (entries : List (String × HalValue)) (pre : List UInt8)
    (h : ∀ e ∈ entries, EntryFits e) :
    decodeEntries (pre ++ entries.flatMap snapshotEntry) entries.length pre.length = .ok entries := by
  -- the bytes read so far move to the prefix
  induction entries generalizing pre with
  | nil => rfl
  | cons e entries ih =>
    obtain ⟨hname, hvalue⟩ := h e mem_cons_self
    have hih := ih (pre ++ snapshotEntry e) fun e' he' => h e' (mem_cons_of_mem _ he')
    have hfield := length_leBytes 2 (text e.1).length
    -- the stream, cut where the decoder cuts it
    have hstream : pre ++ (e :: entries).flatMap snapshotEntry = pre ++ (MachineInt.leBytes 2 (text e.1).length ++
        (text e.1 ++ (encodeHalValue e.2 ++ entries.flatMap snapshotEntry))) := by
      simp only [flatMap_cons, snapshotEntry, List.append_assoc]
    have hsame : pre ++ snapshotEntry e ++ entries.flatMap snapshotEntry =
        pre ++ (e :: entries).flatMap snapshotEntry := by
      rw [flatMap_cons, List.append_assoc]
    have hend : pre.length + 2 + (text e.1).length + (encodeHalValue e.2).length = (pre ++ snapshotEntry e).length := by
      simp only [snapshotEntry, length_append, hfield]
      omega
    have hnameLen : (List.drop pre.length (pre ++ (e :: entries).flatMap snapshotEntry)).take 2 =
        MachineInt.leBytes 2 (text e.1).length := by
      rw [hstream, drop_left, take_left' hfield]
    have hnameBytes : List.drop (pre.length + 2) (pre ++ (e :: entries).flatMap snapshotEntry) =
        text e.1 ++ (encodeHalValue e.2 ++ entries.flatMap snapshotEntry) := by
      rw [hstream, ← drop_drop, drop_left, drop_left' hfield]
    have hvalueBytes : List.drop (pre.length + 2 + (text e.1).length) (pre ++ (e :: entries).flatMap snapshotEntry) =
        encodeHalValue e.2 ++ entries.flatMap snapshotEntry := by
      rw [← drop_drop, hnameBytes, drop_left]
    have hlength : pre.length + 2 + (text e.1).length ≤ (pre ++ (e :: entries).flatMap snapshotEntry).length := by
      rw [hstream]
      simp only [length_append, hfield]
      omega
    rw [length_cons, decodeEntries, if_neg (by omega)]
    simp only [hnameLen, leNat_shortField hname]
    rw [if_neg (by omega), hvalueBytes, decode_front hvalue, hnameBytes, take_left]
    simp only [bind, Except.bind]
    rw [hend, ← hsame, hih]
    simp only [text, lossyString_toUTF8]

/-- **Snapshots round trip** between the two crates, and the values in them with every suffix. -/
theorem decode_snapshot [LawfulTarget] (signals : List (String × HalValue)) (hcount : signals.length ≤ 65535)
    (h : ∀ e ∈ signals, EntryFits e) :
    decodeSnapshotResponse (snapshotPayload signals) = .ok signals ∧
    ∀ v s, HalValue.Fits v → decodeHalValue (encodeHalValue v ++ s) = .ok (v, (encodeHalValue v).length) := by
  constructor
  · have hfield := length_leBytes 2 signals.length
    have hlength : ¬ (snapshotPayload signals).length < 2 := by
      rw [snapshotPayload, length_append, hfield]
      omega
    unfold decodeSnapshotResponse
    rw [if_neg hlength, snapshotPayload, take_left' hfield, leNat_shortField hcount]
    have hentries := decodeEntries_flatMap signals (MachineInt.leBytes 2 signals.length) h
    rw [hfield] at hentries
    exact hentries
  · intro v s hv
    exact decode_front hv s

end Audesys.Runtime.Client

/-! ## Two signals -/

namespace Audesys.Runtime.Client

open Audesys.Hal Audesys.Runtime.Ipc

local instance releaseSnapshot : Target := host false

theorem decode_two_signals :
    decodeSnapshotResponse (snapshotPayload [("a", .bool true), ("b", .blob [])]) =
      .ok [("a", .bool true), ("b", .blob [])] := by
  have hlawful : LawfulTarget := lawful_host false
  have hfits : ∀ e ∈ [("a", HalValue.bool true), ("b", HalValue.blob [])], EntryFits e := by
    intro e he
    rcases mem_cons.1 he with rfl | he
    · exact ⟨by rw [text, toUTF8_toList]; decide, trivial⟩
    · rcases mem_cons.1 he with rfl | he
      · exact ⟨by rw [text, toUTF8_toList]; decide, show ([] : List UInt8).length < 2 ^ 32 by decide⟩
      · cases he
  exact (decode_snapshot _ (by decide) hfits).1

end Audesys.Runtime.Client
