import Audesys.Hal.ArrayAccess
import Audesys.Lib.Text
import Mathlib.Data.List.Forall2

/-!
# `Runtime.Scenes` — recording and playing a scene

`record` stores the `Debug` text of every signal after each cycle, and `play` publishes what `parse_hal_value` reads in
these texts, frame by frame. The parser knows five of the eleven scalar types, and a text that it does not know is
skipped: `scenes_restored_iff`.

The texts of floating-point numbers, and the quoting of strings, are the standard library's (`DebugText`).
-/

open List

namespace Audesys.Runtime.Simulation

open Audesys.Hal Audesys.Lib

/-! ## Numbers as text -/

/-- `Debug` of an integer. -/
def debugInt (n : Int) : List Char :=
  if n < 0 then '-' :: Nat.toDigits 10 n.natAbs else Nat.toDigits 10 n.natAbs

/-- The digits of an integer literal. -/
def parseDigits (s : List Char) : Option Nat :=
  if s ≠ [] ∧ s.all Char.isDigit = true then some (Nat.ofDigitChars 10 s 0) else none

/-- `parse::<u32>()` -/
def parseU32 (s : List Char) : Option UInt32 :=
  (parseDigits (if s.head? = some '+' then s.tail else s)).bind fun n =>
    if n < 2 ^ 32 then some (UInt32.ofNat n) else none

/-- `parse::<i32>()` -/
def parseI32 (s : List Char) : Option Int32 :=
  if s.head? = some '-' then
    (parseDigits s.tail).bind fun n => if n ≤ 2 ^ 31 then some (Int32.ofInt (-n)) else none
  else
    (parseDigits (if s.head? = some '+' then s.tail else s)).bind fun n =>
      if n < 2 ^ 31 then some (Int32.ofInt n) else none

theorem parseDigits_toDigits (n : Nat) : parseDigits (Nat.toDigits 10 n) = some n := by
  have hall : (Nat.toDigits 10 n).all Char.isDigit = true :=
    all_eq_true.2 fun c hc => Nat.isDigit_of_mem_toDigits (by decide) (by decide) hc
  unfold parseDigits
  rw [if_pos ⟨Nat.toDigits_ne_nil, hall⟩]
  simp

theorem head_toDigits (n : Nat) {c : Char} (hc : c.isDigit = false) : (Nat.toDigits 10 n).head? ≠ some c := by
  intro h
  have hdigit := Nat.isDigit_of_mem_toDigits (by decide) (by decide) (mem_of_mem_head? h)
  rw [hc] at hdigit
  cases hdigit

theorem parseU32_debugInt (n : UInt32) : parseU32 (debugInt n.toNat) = some n := by
  unfold parseU32 debugInt
  rw [if_neg (Int.not_lt.2 (Int.natCast_nonneg _)), Int.natAbs_natCast, if_neg (head_toDigits _ (by decide)),
    parseDigits_toDigits, Option.bind_some, if_pos n.toNat_lt, UInt32.ofNat_toNat]

theorem parseI32_debugInt (n : Int32) : parseI32 (debugInt n.toInt) = some n := by
  have hlow := n.le_toInt
  have hhigh := n.toInt_lt
  unfold parseI32 debugInt
  by_cases hneg : n.toInt < 0
  · have habs : -((n.toInt.natAbs : Nat) : Int) = n.toInt := by omega
    rw [if_pos hneg, head?_cons, if_pos rfl, tail_cons, parseDigits_toDigits, Option.bind_some,
      if_pos (by omega), habs, Int32.ofInt_toInt]
  · have habs : ((n.toInt.natAbs : Nat) : Int) = n.toInt := by omega
    rw [if_neg hneg, if_neg (head_toDigits _ (by decide)), if_neg (head_toDigits _ (by decide)), parseDigits_toDigits,
      Option.bind_some, if_pos (by omega), habs, Int32.ofInt_toInt]

/-! ## Values as text -/

variable [Target]

/-- The standard library on floating-point numbers and strings: `Debug`, `str::parse` and `is_finite`. -/
class DebugText where
  debugF32 : Target.F32 → List Char
  parseF32 : List Char → Option Target.F32
  finiteF32 : Target.F32 → Bool
  debugF64 : Target.F64 → List Char
  parseF64 : List Char → Option Target.F64
  finiteF64 : Target.F64 → Bool
  debugString : String → List Char

/-- The text of a finite number is read back exactly. -/
structure ReadsBack [DebugText] : Prop where
  f32 : ∀ x, DebugText.finiteF32 x = true → DebugText.parseF32 (DebugText.debugF32 x) = some x
  f64 : ∀ x, DebugText.finiteF64 x = true → DebugText.parseF64 (DebugText.debugF64 x) = some x

/-- `Debug` of a variant with one field. -/
def debugTuple (name : String) (field : List Char) : List Char := name.toList ++ '(' :: (field ++ [')'])

/-- `Debug` of a list of bytes. -/
def debugBytes (data : List UInt8) : List Char :=
  '[' :: ([',', ' '].intercalate (data.map fun b => debugInt b.toNat) ++ [']'])

/-- `Debug` of a pin type. -/
def debugPinType : HalPinType → List Char
  | .bool => "Bool".toList
  | .s8 => "S8".toList
  | .u8 => "U8".toList
  | .s16 => "S16".toList
  | .u16 => "U16".toList
  | .s32 => "S32".toList
  | .u32 => "U32".toList
  | .s64 => "S64".toList
  | .u64 => "U64".toList
  | .f32 => "F32".toList
  | .f64 => "F64".toList
  | .blob => "Blob".toList
  | .string => "String".toList

/-- `format!("{v:?}")` -/
def debug [DebugText] : HalValue → List Char
  | .bool b => debugTuple "Bool" (if b then "true".toList else "false".toList)
  | .s8 n => debugTuple "S8" (debugInt n.toInt)
  | .u8 n => debugTuple "U8" (debugInt n.toNat)
  | .s16 n => debugTuple "S16" (debugInt n.toInt)
  | .u16 n => debugTuple "U16" (debugInt n.toNat)
  | .s32 n => debugTuple "S32" (debugInt n.toInt)
  | .u32 n => debugTuple "U32" (debugInt n.toNat)
  | .s64 n => debugTuple "S64" (debugInt n.toInt)
  | .u64 n => debugTuple "U64" (debugInt n.toNat)
  | .f32 x => debugTuple "F32" (DebugText.debugF32 x)
  | .f64 x => debugTuple "F64" (DebugText.debugF64 x)
  | .blob data => debugTuple "Blob" (debugBytes data)
  | .string s => debugTuple "String" (DebugText.debugString s)
  | .array t data =>
    "Array \x7b element_type: ".toList ++ debugPinType t ++ ", data: ".toList ++ debugBytes data ++ " \x7d".toList

/-- `s.strip_prefix("Name(").and_then(|r| r.strip_suffix(')'))` -/
def inner (name : String) (s : List Char) : Option (List Char) :=
  (stripPrefix (name.toList ++ ['(']) s).bind fun r => if r.getLast? = some ')' then some r.dropLast else none

/-- `parse_hal_value` -/
def parseHalValue [DebugText] (s : List Char) : Option HalValue :=
  let s := trim s
  match inner "Bool" s with
  | some t => some (.bool (t == "true".toList))
  | none =>
    match inner "U32" s with
    | some t => (parseU32 t).map .u32
    | none =>
      match inner "S32" s with
      | some t => (parseI32 t).map .s32
      | none =>
        match inner "F32" s with
        | some t => (DebugText.parseF32 t).map .f32
        | none =>
          match inner "F64" s with
          | some t => (DebugText.parseF64 t).map .f64
          | none => none

/-! ## Reading back -/

/-- A value whose floating-point number is finite, if it is one. -/
def FiniteValue [DebugText] : HalValue → Prop
  | .f32 x => DebugText.finiteF32 x = true
  | .f64 x => DebugText.finiteF64 x = true
  | _ => True

/-- The types that `parse_hal_value` knows. -/
def isRestored : HalValue → Bool
  | .bool _ | .u32 _ | .s32 _ | .f32 _ | .f64 _ => true
  | _ => false

section Texts

omit [Target]

theorem inner_debugTuple (name : String) (field : List Char) : inner name (debugTuple name field) = some field := by
  have htext : debugTuple name field = (name.toList ++ ['(']) ++ (field ++ [')']) := by
    unfold debugTuple
    rw [List.append_assoc, singleton_append]
  unfold inner stripPrefix
  rw [htext, if_pos (List.isPrefixOf_iff_prefix.2 (prefix_append ..)), drop_left, Option.bind_some,
    getLast?_concat, if_pos rfl, dropLast_concat]

/-- A text that neither starts nor ends with white space. -/
theorem trim_text {c d : Char} {s : List Char} (hc : isWhitespace c = false) (hd : isWhitespace d = false) :
    trim (c :: (s ++ [d])) = c :: (s ++ [d]) := by
  refine @trim_pad [] (c :: (s ++ [d])) rfl ?_ ?_
  · rintro _ ⟨⟩
    exact hc
  · intro e he
    rw [← cons_append, getLast?_concat] at he
    cases he
    exact hd

theorem trim_debugTuple {name : String} {c : Char} {rest field : List Char} (hname : name.toList = c :: rest)
    (hc : isWhitespace c = false) : trim (debugTuple name field) = debugTuple name field := by
  have htext : debugTuple name field = c :: ((rest ++ '(' :: field) ++ [')']) := by
    unfold debugTuple
    rw [hname, cons_append, List.append_assoc, cons_append]
  rw [htext]
  exact trim_text hc (by decide)

end Texts

section Reading

variable [DebugText]

/-- The text of none of the types. -/
theorem parseHalValue_unknown {s : List Char} (htrim : trim s = s) (hbool : inner "Bool" s = none)
    (hu32 : inner "U32" s = none) (hs32 : inner "S32" s = none) (hf32 : inner "F32" s = none)
    (hf64 : inner "F64" s = none) : parseHalValue s = none := by
  unfold parseHalValue
  dsimp only
  rw [htrim, hbool, hu32, hs32, hf32, hf64]

theorem parseHalValue_bool (b : Bool) : parseHalValue (debug (.bool b)) = some (.bool b) := by
  unfold parseHalValue debug
  dsimp only
  rw [trim_debugTuple rfl (by decide), inner_debugTuple]
  cases b <;> rfl

theorem parseHalValue_u32 (n : UInt32) : parseHalValue (debug (.u32 n)) = some (.u32 n) := by
  have hbool : inner "Bool" (debugTuple "U32" (debugInt n.toNat)) = none := rfl
  unfold parseHalValue debug
  dsimp only
  rw [trim_debugTuple rfl (by decide), hbool, inner_debugTuple]
  dsimp only
  rw [parseU32_debugInt]
  rfl

theorem parseHalValue_s32 (n : Int32) : parseHalValue (debug (.s32 n)) = some (.s32 n) := by
  have hbool : inner "Bool" (debugTuple "S32" (debugInt n.toInt)) = none := rfl
  have hu32 : inner "U32" (debugTuple "S32" (debugInt n.toInt)) = none := rfl
  unfold parseHalValue debug
  dsimp only
  rw [trim_debugTuple rfl (by decide), hbool, hu32, inner_debugTuple]
  dsimp only
  rw [parseI32_debugInt]
  rfl

theorem parseHalValue_f32 (hread : ReadsBack) {x : Target.F32} (hfinite : DebugText.finiteF32 x = true) :
    parseHalValue (debug (.f32 x)) = some (.f32 x) := by
  have hbool : inner "Bool" (debugTuple "F32" (DebugText.debugF32 x)) = none := rfl
  have hu32 : inner "U32" (debugTuple "F32" (DebugText.debugF32 x)) = none := rfl
  have hs32 : inner "S32" (debugTuple "F32" (DebugText.debugF32 x)) = none := rfl
  unfold parseHalValue debug
  dsimp only
  rw [trim_debugTuple rfl (by decide), hbool, hu32, hs32, inner_debugTuple]
  dsimp only
  rw [hread.f32 x hfinite]
  rfl

theorem parseHalValue_f64 (hread : ReadsBack) {x : Target.F64} (hfinite : DebugText.finiteF64 x = true) :
    parseHalValue (debug (.f64 x)) = some (.f64 x) := by
  have hbool : inner "Bool" (debugTuple "F64" (DebugText.debugF64 x)) = none := rfl
  have hu32 : inner "U32" (debugTuple "F64" (DebugText.debugF64 x)) = none := rfl
  have hs32 : inner "S32" (debugTuple "F64" (DebugText.debugF64 x)) = none := rfl
  have hf32 : inner "F32" (debugTuple "F64" (DebugText.debugF64 x)) = none := rfl
  unfold parseHalValue debug
  dsimp only
  rw [trim_debugTuple rfl (by decide), hbool, hu32, hs32, hf32, inner_debugTuple]
  dsimp only
  rw [hread.f64 x hfinite]
  rfl

/-- **What is read in the text of a value**: the value, if its type is known, and nothing otherwise. -/
theorem parseHalValue_debug (hread : ReadsBack) {v : HalValue} (hfinite : FiniteValue v) :
    parseHalValue (debug v) = if isRestored v then some v else none := by
  cases v with
  | bool b => exact parseHalValue_bool b
  | u32 n => exact parseHalValue_u32 n
  | s32 n => exact parseHalValue_s32 n
  | f32 x => exact parseHalValue_f32 hread hfinite
  | f64 x => exact parseHalValue_f64 hread hfinite
  | s8 n | u8 n | s16 n | u16 n | s64 n | u64 n | blob data | string s =>
    exact parseHalValue_unknown (trim_debugTuple rfl (by decide)) rfl rfl rfl rfl rfl
  | array t data =>
    have htext : debug (.array t data) =
        'A' :: ("rray \x7b element_type: ".toList ++ debugPinType t ++ ", data: ".toList ++ debugBytes data ++ [' '] ++
          ['\x7d']) := by
      unfold debug
      simp only [List.append_assoc]
      rfl
    rw [htext]
    exact parseHalValue_unknown (trim_text (by decide) (by decide)) rfl rfl rfl rfl rfl

end Reading

/-! ## Scenes -/

section Scenes

variable [DebugText]

/-- `signal_snapshot`: the signals of the registry, each under its own name. -/
structure Snapshot where
  signals : List (String × HalValue)
  distinct : (signals.map Prod.fst).Nodup

/-- A frame: the entries of a map from names to texts. -/
abbrev Frame := List (String × List Char)

structure Scene where
  name : String
  cycleMs : UInt64
  signalNames : List String
  frames : List Frame

/-- The frame of one cycle. -/
def recordFrame (snap : Snapshot) : Frame := snap.signals.map fun signal => (signal.1, debug signal.2)

/-- `record`: `first` is the snapshot in front of the cycles, `snaps` are those behind them. -/
def record (name : String) (cycleMs : UInt64) (first : Snapshot) (snaps : List Snapshot) : Scene :=
  ⟨name, cycleMs, first.signals.map Prod.fst, snaps.map recordFrame⟩

/-- What `play` publishes for the entries of a frame, in the order in which the map is gone through. -/
def playEntries (entries : List (String × List Char)) : List (String × HalValue) :=
  entries.filterMap fun entry => (parseHalValue entry.2).map fun value => (entry.1, value)

/-- `play`: what it publishes for the frames. A map is gone through in any order. -/
def Plays (scene : Scene) (published : List (List (String × HalValue))) : Prop :=
  List.Forall₂ (fun frame values => ∃ entries, entries.Perm frame ∧ values = playEntries entries) scene.frames published

/-- The scalar signals of a snapshot. -/
def Snapshot.scalars (snap : Snapshot) : List (String × HalValue) := snap.signals.filter fun signal => signal.2.isScalar

/-- The scene is restored: frame by frame, the recorded scalar signals are published. -/
def Restores (scene : Scene) (snaps : List Snapshot) : Prop :=
  ∀ published, Plays scene published → List.Forall₂ (fun snap values => values.Perm snap.scalars) snaps published

/-- Played in the order of the record, a frame publishes the signals of the types that are known. -/
theorem playEntries_recordFrame (hread : ReadsBack) {snap : Snapshot}
    (hfinite : ∀ signal ∈ snap.signals, FiniteValue signal.2) :
    playEntries (recordFrame snap) = snap.signals.filter fun signal => isRestored signal.2 := by
  unfold playEntries recordFrame
  rw [filterMap_map, ← filterMap_eq_filter]
  refine filterMap_congr fun signal hsignal => ?_
  rw [Function.comp_apply, parseHalValue_debug hread (hfinite signal hsignal)]
  unfold Option.guard
  by_cases hknown : isRestored signal.2 = true
  · rw [if_pos hknown, if_pos hknown]
    rfl
  · rw [if_neg hknown, if_neg hknown]
    rfl

omit [DebugText] in
theorem isScalar_of_isRestored {v : HalValue} (h : isRestored v = true) : v.isScalar = true := by
  cases v <;> first | rfl | cases h

/-- A frame that is restored in the order of the record has only scalars of types that are known. -/
theorem isRestored_of_perm (hread : ReadsBack) {snap : Snapshot}
    (hfinite : ∀ signal ∈ snap.signals, FiniteValue signal.2)
    (hperm : (playEntries (recordFrame snap)).Perm snap.scalars) {signal : String × HalValue}
    (hsignal : signal ∈ snap.signals) (hscalar : signal.2.isScalar = true) : isRestored signal.2 = true := by
  rw [playEntries_recordFrame hread hfinite] at hperm
  exact (mem_filter.1 (hperm.mem_iff.2 (mem_filter.2 ⟨hsignal, hscalar⟩))).2

/-- Such a frame is restored in every order. -/
theorem playEntries_perm (hread : ReadsBack) {snap : Snapshot}
    (hfinite : ∀ signal ∈ snap.signals, FiniteValue signal.2)
    (h : ∀ signal ∈ snap.signals, signal.2.isScalar = true → isRestored signal.2 = true)
    {entries : List (String × List Char)} (hperm : entries.Perm (recordFrame snap)) :
    (playEntries entries).Perm snap.scalars := by
  have hsame : snap.signals.filter (fun signal => isRestored signal.2) = snap.scalars :=
    filter_congr fun signal hsignal => Bool.eq_iff_iff.2 ⟨isScalar_of_isRestored, h signal hsignal⟩
  rw [← hsame, ← playEntries_recordFrame hread hfinite]
  exact hperm.filterMap _

/-- **A scene is restored** exactly if every scalar in it is of a type that the parser knows; one value is read back in
its text exactly if its type is. -/
theorem scenes_restored_iff (hread : ReadsBack) :
    (∀ v : HalValue, v.isScalar = true → FiniteValue v →
      (parseHalValue (debug v) = some v ↔ isRestored v = true)) ∧
    ∀ (name : String) (cycleMs : UInt64) (first : Snapshot) (snaps : List Snapshot),
      (∀ snap ∈ snaps, ∀ signal ∈ snap.signals, FiniteValue signal.2) →
      (Restores (record name cycleMs first snaps) snaps ↔
        ∀ snap ∈ snaps, ∀ signal ∈ snap.signals, signal.2.isScalar = true → isRestored signal.2 = true) := by
  constructor
  · intro v _ hfinite
    rw [parseHalValue_debug hread hfinite]
    split
    · rename_i hknown
      exact iff_of_true rfl hknown
    · rename_i hunknown
      exact iff_of_false (fun h => by cases h) hunknown
  · intro name cycleMs first snaps hfinite
    have hplays : ∀ published, Plays (record name cycleMs first snaps) published ↔
        List.Forall₂ (fun snap values => ∃ entries, entries.Perm (recordFrame snap) ∧ values = playEntries entries)
          snaps published := fun published => forall₂_map_left_iff
    constructor
    · intro h snap hsnap signal hsignal
      -- the scene played in the order of the record
      have hplay : Plays (record name cycleMs first snaps) (snaps.map fun snap => playEntries (recordFrame snap)) := by
        rw [hplays, forall₂_map_right_iff, forall₂_same]
        exact fun snap _ => ⟨_, List.Perm.refl _, rfl⟩
      have hrestored := h _ hplay
      rw [forall₂_map_right_iff, forall₂_same] at hrestored
      exact isRestored_of_perm hread (hfinite snap hsnap) (hrestored snap hsnap) hsignal
    · intro h published hplay
      refine ((forall₂_and_left snaps published).2 ⟨fun _ hsnap => hsnap, (hplays published).1 hplay⟩).imp ?_
      rintro snap values ⟨hsnap, entries, hperm, rfl⟩
      exact playEntries_perm hread (hfinite snap hsnap) (h snap hsnap) hperm

end Scenes

end Audesys.Runtime.Simulation

/-! ## A counter and a byte -/

namespace Audesys.Runtime.Simulation

open Audesys.Hal Audesys.Lib

local instance releaseBuild : Target := host false

/-- Zero is `0.0`; of the other numbers the texts below show nothing, and the bits stand for them. -/
def debugBits (n : Nat) : List Char := if n = 0 then "0.0".toList else Nat.toDigits 10 n

def parseBits (s : List Char) : Option Nat := if s = "0.0".toList then some 0 else parseDigits s

theorem parseBits_debugBits (n : Nat) : parseBits (debugBits n) = some n := by
  unfold parseBits debugBits
  by_cases hzero : n = 0
  · rw [if_pos hzero, if_pos rfl, hzero]
  · have hne : Nat.toDigits 10 n ≠ "0.0".toList := by
      intro heq
      have hdot : '.' ∈ Nat.toDigits 10 n := heq ▸ by decide
      exact absurd (Nat.isDigit_of_mem_toDigits (by decide) (by decide) hdot) (by decide)
    rw [if_neg hzero, if_neg hne, parseDigits_toDigits]

local instance bitsText : DebugText where
  debugF32 := fun (x : UInt32) => debugBits x.toNat
  parseF32 s := (parseBits s).map UInt32.ofNat
  finiteF32 := fun (x : UInt32) => !binary32.special x.toNat
  debugF64 := fun (x : UInt64) => debugBits x.toNat
  parseF64 s := (parseBits s).map UInt64.ofNat
  finiteF64 := fun (x : UInt64) => !binary64.special x.toNat
  debugString s := '"' :: (s.toList ++ ['"'])

theorem bitsText_readsBack : ReadsBack where
  f32 := by
    intro (x : UInt32) _
    show (parseBits (debugBits x.toNat)).map UInt32.ofNat = some x
    rw [parseBits_debugBits, Option.map_some, UInt32.ofNat_toNat]
  f64 := by
    intro (x : UInt64) _
    show (parseBits (debugBits x.toNat)).map UInt64.ofNat = some x
    rw [parseBits_debugBits, Option.map_some, UInt64.ofNat_toNat]

/-- A counter, and the level as a byte. -/
def byteLevel : Snapshot := ⟨[("counter", .u32 42), ("level", .u8 7)], by decide⟩

/-- The counter, and the level as a number. -/
def numberLevel : Snapshot := ⟨[("counter", .u32 42), ("level", .f64 (0 : UInt64))], by decide⟩

/-- The text of the byte is not understood, and the scene plays without the level. -/
theorem byteLevel_lost :
    parseHalValue (debug (.u8 7)) = none ∧
      Plays (record "level" 1 byteLevel [byteLevel]) [[("counter", .u32 42)]] ∧
      ¬ Restores (record "level" 1 byteLevel [byteLevel]) [byteLevel] := by
  have hplays : Plays (record "level" 1 byteLevel [byteLevel]) [[("counter", .u32 42)]] :=
    .cons ⟨_, List.Perm.refl _, by decide⟩ .nil
  refine ⟨by decide, hplays, fun h => ?_⟩
  have hframe := h _ hplays
  rw [forall₂_cons] at hframe
  have hlength := hframe.1.length_eq
  revert hlength
  decide

/-- With the level as a number it is restored. -/
theorem numberLevel_restored : Restores (record "level" 1 numberLevel [numberLevel]) [numberLevel] := by
  have hfinite : ∀ signal ∈ numberLevel.signals, FiniteValue signal.2 := by
    intro signal hsignal
    rcases mem_pair.1 hsignal with rfl | rfl
    · trivial
    · exact (by decide : (!binary64.special 0) = true)
  have hknown : ∀ signal ∈ numberLevel.signals, isRestored signal.2 = true := by decide
  refine ((scenes_restored_iff bitsText_readsBack).2 "level" 1 numberLevel [numberLevel] ?_).2 ?_
  · intro snap hsnap
    exact mem_singleton.1 hsnap ▸ hfinite
  · intro snap hsnap signal hsignal _
    exact hknown signal (mem_singleton.1 hsnap ▸ hsignal)

end Audesys.Runtime.Simulation
