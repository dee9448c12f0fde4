import Audesys.Lib.Scanner
import Audesys.Lib.Text
import Audesys.Lib.Utf16
import Audesys.Runtime.Ipc.Utf8

/-!
# `Debug.Framing` — the debug adapter protocol on the wire

The two ends of the adapter's pipes. The adapter (`main.rs`) frames its messages with `send_packet` and reads requests by
lines and bytes; the bridge (`dap-protocol.ts`, `real-dap-bridge.ts`) frames requests with `encodeRequest`, and decodes
what it gets chunk by chunk, each chunk turned into a string first.

Lengths on the wire count bytes. The adapter reads bytes, and gets every request as it was sent (`serveRequests_encode`).
`decodeFrames` takes as many code units of its string: the messages come through, whatever the chunks, exactly where all of
them are ASCII (`framing_iff`).
-/

open List

namespace Audesys.Debug

open Audesys.Lib Audesys.Runtime.Ipc

variable {F R : Type}
variable {messages : List F} {n : Nat}

/-! ## Frames -/

/-- A decimal number. -/
def digits (n : Nat) : List Char := Nat.toDigits 10 n

/-- `Content-Length: <N>` with the length of the body in bytes, an empty line, the body. -/
def framed (body : List Char) : List Char :=
  "Content-Length: ".toList ++ digits (utf8 body).length ++ "\r\n\r\n".toList ++ body

/-- `send_packet`. -/
def sendPacket (data : List Char) : List Char := framed data

/-- `encodeRequest`; `stringify` stands for `JSON.stringify` of the request object. -/
def encodeRequest (stringify : R → List Char) (r : R) : List Char := framed (stringify r)

/-! ## `decodeFrames` -/

/-- `\r\n\r\n`. -/
def separator : List Nat := [13, 10, 13, 10]

/-- `indexOf` of the separator, and the two slices around it. -/
def splitHeader : List Nat → Option (List Nat × List Nat)
  | [] => none
  | u :: s =>
    if separator.isPrefixOf (u :: s) then some ([], (u :: s).drop 4)
    else (splitHeader s).map fun (header, rest) => (u :: header, rest)

def isDigitUnit (u : Nat) : Bool := 48 ≤ u && u ≤ 57

/-- ASCII letters in lower case. -/
def lowerUnit (u : Nat) : Nat := if 65 ≤ u ∧ u ≤ 90 then u + 32 else u

/-- `/Content-Length:\s*(\d+)/i` at the front of a string: the number. -/
def lengthAt (s : List Nat) : Option Nat :=
  if (s.take 15).map lowerUnit = utf16 "content-length:".toList then
    let number := ((s.drop 15).dropWhile isJsSpace).takeWhile isDigitUnit
    if number = [] then none else some (number.foldl (fun n u => 10 * n + (u - 48)) 0)
  else none

/-- The first match of the expression. -/
def contentLength : List Nat → Option Nat
  | [] => none
  | u :: s => (lengthAt (u :: s)).orElse fun _ => contentLength s

/-- A round of the loop: none where it breaks, and else the frame, if the body is one, with what is left. -/
def nextFrame (parse : List Nat → Option F) (s : List Nat) : Option (Option F × List Nat) :=
  match splitHeader s with
  | none => none
  | some (header, rest) =>
    match contentLength header with
    -- a malformed header is dropped
    | none => some (none, rest)
    | some length => if rest.length < length then none else some (parse (rest.take length), rest.drop length)

theorem splitHeader_eq {s header rest : List Nat} (h : splitHeader s = some (header, rest)) :
    s = header ++ (separator ++ rest) := by
  induction s generalizing header with
  | nil => cases h
  | cons u s ih =>
    unfold splitHeader at h
    by_cases hsep : separator.isPrefixOf (u :: s) = true
    · rw [if_pos hsep] at h
      cases h
      obtain ⟨t, ht⟩ := isPrefixOf_iff_prefix.1 hsep
      rw [← ht]
      rfl
    · rw [if_neg hsep] at h
      obtain ⟨⟨header', rest'⟩, hsplit, heq⟩ := Option.map_eq_some_iff.1 h
      cases heq
      rw [cons_append, ← ih hsplit]

/-- The first separator stays the first one. -/
theorem splitHeader_append {s header rest : List Nat} (h : splitHeader s = some (header, rest)) (t : List Nat) :
    splitHeader (s ++ t) = some (header, rest ++ t) := by
  induction s generalizing header with
  | nil => cases h
  | cons u s ih =>
    unfold splitHeader at h
    rw [cons_append]
    unfold splitHeader
    by_cases hsep : separator.isPrefixOf (u :: s) = true
    · rw [if_pos hsep] at h
      cases h
      obtain ⟨t', ht'⟩ := isPrefixOf_iff_prefix.1 hsep
      have hcons : u :: (s ++ t) = separator ++ (t' ++ t) := by
        rw [← cons_append, ← ht', List.append_assoc]
      rw [hcons, if_pos (List.isPrefixOf_iff_prefix.2 (prefix_append _ _)), ← ht']
      rfl
    · rw [if_neg hsep] at h
      obtain ⟨⟨header', rest'⟩, hsplit, heq⟩ := Option.map_eq_some_iff.1 h
      cases heq
      have hlong : separator.length ≤ (u :: s).length := by
        have hlen := congrArg List.length (splitHeader_eq hsplit)
        rw [length_append, length_append] at hlen
        rw [length_cons]
        omega
      have hnot : ¬ separator.isPrefixOf (u :: (s ++ t)) = true := by
        intro hpre
        apply hsep
        rw [List.isPrefixOf_iff_prefix] at hpre ⊢
        exact prefix_of_prefix_length_le hpre (prefix_append (u :: s) t) hlong
      rw [if_neg hnot, ih hsplit]
      rfl

theorem nextFrame_cases {parse : List Nat → Option F} {s : List Nat} {x : Option F} {rest : List Nat}
    (h : nextFrame parse s = some (x, rest)) :
    ∃ header body, splitHeader s = some (header, body) ∧ ∃ n, rest = body.drop n := by
  unfold nextFrame at h
  cases hsplit : splitHeader s with
  | none =>
    rw [hsplit] at h
    cases h
  | some item =>
    obtain ⟨header, body⟩ := item
    rw [hsplit] at h
    dsimp only at h
    refine ⟨header, body, rfl, ?_⟩
    cases hlength : contentLength header with
    | none =>
      rw [hlength] at h
      cases h
      exact ⟨0, rfl⟩
    | some n =>
      rw [hlength] at h
      dsimp only at h
      by_cases hshort : body.length < n
      · rw [if_pos hshort] at h
        cases h
      · rw [if_neg hshort] at h
        cases h
        exact ⟨n, rfl⟩

/-- The loop of `decodeFrames`. -/
def frames (parse : List Nat → Option F) : Scanner Nat F where
  next := nextFrame parse
  shorter := by
    intro s x rest h
    obtain ⟨header, body, hsplit, n, rfl⟩ := nextFrame_cases h
    have hlen := congrArg List.length (splitHeader_eq hsplit)
    have hsep : separator.length = 4 := rfl
    rw [length_append, length_append, hsep] at hlen
    rw [length_drop]
    omega
  extend := by
    intro s x rest h t
    unfold nextFrame at h ⊢
    cases hsplit : splitHeader s with
    | none =>
      rw [hsplit] at h
      cases h
    | some item =>
      obtain ⟨header, body⟩ := item
      rw [hsplit] at h
      rw [splitHeader_append hsplit]
      dsimp only at h ⊢
      cases hlength : contentLength header with
      | none =>
        rw [hlength] at h
        cases h
        rfl
      | some n =>
        rw [hlength] at h
        dsimp only at h ⊢
        by_cases hshort : body.length < n
        · rw [if_pos hshort] at h
          cases h
        · rw [if_neg hshort] at h
          cases h
          have hlong := Nat.le_of_not_lt hshort
          have hnot : ¬ (body ++ t).length < n := by
            rw [length_append]
            omega
          rw [if_neg hnot, take_append_of_le_length hlong, drop_append_of_le_length hlong]

def decodeFrames (parse : List Nat → Option F) (buffer : List Nat) : List F × List Nat := (frames parse).decode buffer

/-- `onData` for chunk after chunk, each one through `chunk.toString('utf8')`: the frames and the buffer. -/
def receive (parse : List Nat → Option F) (chunks : List (List UInt8)) : List F × List Nat :=
  (frames parse).receive (chunks.map fun chunk => utf16 (utf8Lossy chunk))

/-! ## A frame at the front -/

theorem isDigit_range {c : Char} (h : c.isDigit = true) : 48 ≤ c.toNat ∧ c.toNat ≤ 57 := by
  unfold Char.isDigit at h
  rw [Bool.and_eq_true, decide_eq_true_eq, decide_eq_true_eq] at h
  exact h

theorem digits_range {c : Char} (h : c ∈ digits n) : 48 ≤ c.toNat ∧ c.toNat ≤ 57 :=
  isDigit_range (Nat.isDigit_of_mem_toDigits (by decide) (by decide) h)

theorem isAscii_digits (n : Nat) : IsAscii (digits n) := by
  intro c hc
  have hrange := digits_range hc
  omega

/-- The line of a header. -/
def header (n : Nat) : List Char := "Content-Length: ".toList ++ digits n

theorem isAscii_header (n : Nat) : IsAscii (header n) := isAscii_append.2 ⟨by decide, isAscii_digits n⟩

theorem framed_eq (body : List Char) :
    framed body = header (utf8 body).length ++ ("\r\n\r\n".toList ++ body) := List.append_assoc ..

theorem utf16_framed (body : List Char) :
    utf16 (framed body) = utf16 (header (utf8 body).length) ++ (separator ++ utf16 body) := by
  have hsep : utf16 "\r\n\r\n".toList = separator := by decide
  rw [framed_eq, utf16_append, utf16_append, hsep]

/-- No line end is part of a header. -/
theorem not_mem_header {u : Nat} (h : u < 32) (n : Nat) : u ∉ utf16 (header n) := by
  rw [utf16_ascii (isAscii_header n)]
  intro hmem
  obtain ⟨c, hc, rfl⟩ := mem_map.1 hmem
  rcases mem_append.1 hc with hname | hdigit
  · have hall : ("Content-Length: ".toList.all fun c => 32 ≤ c.toNat) = true := by decide
    exact absurd (of_decide_eq_true (all_eq_true.1 hall c hname)) (Nat.not_le.2 h)
  · have hrange := digits_range hdigit
    omega

theorem splitHeader_plain {front rest : List Nat} (h : 13 ∉ front) :
    splitHeader (front ++ (separator ++ rest)) = some (front, rest) := by
  induction front with
  | nil => rfl
  | cons u front ih =>
    have hu : 13 ≠ u := ne_of_not_mem_cons h
    have hfront : 13 ∉ front := not_mem_of_not_mem_cons h
    have hnot : ¬ separator.isPrefixOf (u :: (front ++ (separator ++ rest))) = true := by
      rw [List.isPrefixOf_iff_prefix]
      exact fun hpre => hu (cons_prefix_cons.1 hpre).1
    rw [cons_append]
    unfold splitHeader
    rw [if_neg hnot, ih hfront]
    rfl

/-- The length of a header is the one that was written. -/
theorem contentLength_header (n : Nat) : contentLength (utf16 (header n)) = some n := by
  -- the name of the field, and the blank behind its colon
  have hname : utf16 "Content-Length: ".toList = 67 :: [111, 110, 116, 101, 110, 116, 45, 76, 101, 110, 103, 116, 104, 58] ++
      [32] := by decide
  have hdigits : utf16 (digits n) = (digits n).map Char.toNat := utf16_ascii (isAscii_digits n)
  have hnumber : ∀ u ∈ utf16 (digits n), 48 ≤ u ∧ u ≤ 57 := by
    rw [hdigits]
    intro u hu
    obtain ⟨c, hc, rfl⟩ := mem_map.1 hu
    exact digits_range hc
  have hspace : (32 :: utf16 (digits n)).dropWhile isJsSpace = utf16 (digits n) := by
    rw [dropWhile_cons_of_pos rfl]
    cases hcons : utf16 (digits n) with
    | nil => rfl
    | cons u rest =>
      have hrange := hnumber u (hcons ▸ mem_cons_self ..)
      apply dropWhile_cons_of_neg
      unfold isJsSpace
      simp only [Bool.or_eq_true, Bool.and_eq_true, decide_eq_true_eq]
      omega
  have htake : (utf16 (digits n)).takeWhile isDigitUnit = utf16 (digits n) := by
    apply takeWhile_eq_self_iff.2
    intro u hu
    have hrange := hnumber u hu
    unfold isDigitUnit
    rw [Bool.and_eq_true, decide_eq_true_eq, decide_eq_true_eq]
    exact hrange
  have hne : utf16 (digits n) ≠ [] := by
    rw [hdigits]
    exact fun hnil => Nat.toDigits_ne_nil (map_eq_nil_iff.1 hnil)
  have hvalue : (utf16 (digits n)).foldl (fun n u => 10 * n + (u - 48)) 0 = n := by
    rw [hdigits, foldl_map]
    exact Nat.ofDigitChars_ten_toDigits
  -- the field is found at the start of the header
  have hfront : lengthAt (utf16 (header n)) = some n := by
    unfold lengthAt header
    rw [utf16_append, hname]
    have hdrop : (67 :: [111, 110, 116, 101, 110, 116, 45, 76, 101, 110, 103, 116, 104, 58] ++ [32] ++
        utf16 (digits n)).drop 15 = 32 :: utf16 (digits n) := rfl
    rw [if_pos (by rfl), hdrop]
    dsimp only
    rw [hspace, htake, if_neg hne, hvalue]
  cases hcons : utf16 (header n) with
  | nil =>
    rw [hcons] at hfront
    cases hfront
  | cons u rest =>
    unfold contentLength
    rw [← hcons, hfront]
    rfl

/-- A frame at the front of the buffer: as many code units are taken for the body as it has bytes. -/
theorem nextFrame_framed (parse : List Nat → Option F) (body : List Char) (t : List Nat) :
    nextFrame parse (utf16 (framed body) ++ t) =
      if (utf16 body ++ t).length < (utf8 body).length then none
      else some (parse ((utf16 body ++ t).take (utf8 body).length), (utf16 body ++ t).drop (utf8 body).length) := by
  have hsplit : splitHeader (utf16 (framed body) ++ t) =
      some (utf16 (header (utf8 body).length), utf16 body ++ t) := by
    rw [utf16_framed, List.append_assoc, List.append_assoc]
    exact splitHeader_plain (not_mem_header (by decide) _)
  unfold nextFrame
  rw [hsplit]
  dsimp only
  rw [contentLength_header]

/-! ## Messages -/

/-- What the bridge relies on: `print` is `serde_json::to_string` of a message, an object, and `parse` is `JSON.parse`. A
printed message is parsed as that message, it has no raw control characters, and no text but white space may follow it. -/
structure LawfulMessages (print : F → List Char) (parse : List Nat → Option F) : Prop where
  parse_print : ∀ m, parse (utf16 (print m)) = some m
  noControl : ∀ m, ∀ c ∈ print m, 32 ≤ c.toNat
  trailing : ∀ m u rest, u ∉ [9, 10, 13, 32] → parse (utf16 (print m) ++ u :: rest) = none

/-- The bytes of messages on the adapter's standard output. -/
def stream (print : F → List Char) (messages : List F) : List UInt8 :=
  utf8 (messages.flatMap fun m => sendPacket (print m))

/-- The stream as a string. -/
def text (print : F → List Char) (messages : List F) : List Nat :=
  messages.flatMap fun m => utf16 (framed (print m))

theorem utf16_stream (print : F → List Char) (messages : List F) :
    utf16 (messages.flatMap fun m => sendPacket (print m)) = text print messages := flatMap_assoc ..

section
variable {print : F → List Char} {parse : List Nat → Option F}

/-- An ASCII message is the next frame. -/
theorem nextFrame_ascii (h : LawfulMessages print parse) {m : F} (hm : IsAscii (print m)) (t : List Nat) :
    nextFrame parse (utf16 (framed (print m)) ++ t) = some (some m, t) := by
  have hlen := length_utf16_ascii hm
  have hnot : ¬ (utf16 (print m) ++ t).length < (utf8 (print m)).length := by
    rw [length_append, hlen]
    exact Nat.not_lt.2 (Nat.le_add_right _ _)
  rw [nextFrame_framed, if_neg hnot, ← hlen, take_left, drop_left, h.parse_print]

/-- A message that is not ASCII is awaited, or it takes the beginning of the next frame with it and is lost. -/
theorem nextFrame_not_ascii (h : LawfulMessages print parse) {m : F} (hm : ¬ IsAscii (print m)) (rest : List F) :
    nextFrame parse (utf16 (framed (print m)) ++ text print rest) = none ∨
      ∃ k, nextFrame parse (utf16 (framed (print m)) ++ text print rest) = some (none, (text print rest).drop k) := by
  rw [nextFrame_framed]
  by_cases hshort : (utf16 (print m) ++ text print rest).length < (utf8 (print m)).length
  · rw [if_pos hshort]
    exact Or.inl rfl
  · right
    have hlen := length_utf16_lt hm
    obtain ⟨k, hk⟩ := Nat.exists_eq_add_of_lt hlen
    refine ⟨k + 1, ?_⟩
    rw [if_neg hshort, hk, Nat.add_assoc, take_length_add_append, drop_length_add_append]
    cases hrest : text print rest with
    | nil =>
      rw [hrest, List.append_nil] at hshort
      exact absurd hlen hshort
    | cons u t =>
      -- what follows is the header of the next message
      have hu : u = 67 := by
        cases rest with
        | nil => cases hrest
        | cons m' rest =>
          have hhead : (text print (m' :: rest)).head? = some 67 := rfl
          rw [hrest] at hhead
          exact Option.some.inj hhead
      rw [take_succ_cons, h.trailing m u _ (hu ▸ (by decide))]

/-- A frame takes two line feeds. -/
theorem count_frames (parse : List Nat → Option F) (s : List Nat) : 2 * (decodeFrames parse s).1.length ≤ s.count 10 := by
  induction hn : s.length using Nat.strongRecOn generalizing s with
  | _ n ih =>
    unfold decodeFrames at ih ⊢
    cases hnext : (frames parse).next s with
    | none =>
      rw [Scanner.decode_none hnext]
      exact Nat.zero_le _
    | some item =>
      obtain ⟨x, rest⟩ := item
      obtain ⟨front, body, hsplit, k, rfl⟩ := nextFrame_cases hnext
      have hrest := ih _ (hn ▸ (frames parse).shorter hnext) _ rfl
      have hsep : separator.count 10 = 2 := rfl
      have hbody : (body.drop k).count 10 ≤ body.count 10 := (drop_sublist k body).count_le 10
      have hitem : x.toList.length ≤ 1 := by
        cases x with
        | none => exact Nat.zero_le 1
        | some f => exact Nat.le_refl 1
      rw [Scanner.decode_some hnext, splitHeader_eq hsplit, count_append, count_append, hsep,
        length_append]
      omega

theorem count_text (h : LawfulMessages print parse) (messages : List F) :
    (text print messages).count 10 = 2 * messages.length := by
  induction messages with
  | nil => rfl
  | cons m messages ih =>
    have hcons : text print (m :: messages) = utf16 (framed (print m)) ++ text print messages := flatMap_cons ..
    have hsep : separator.count 10 = 2 := rfl
    have hheader : (utf16 (header (utf8 (print m)).length)).count 10 = 0 :=
      count_eq_zero.2 (not_mem_header (by decide) _)
    have hfeed : ('\n' : Char).toNat = 10 := rfl
    have hbody : (utf16 (print m)).count 10 = 0 := by
      rw [← hfeed, count_utf16 (by decide), count_eq_zero]
      exact fun hmem => absurd (h.noControl m _ hmem) (by decide)
    rw [hcons, count_append, ih, utf16_framed, count_append, count_append, hsep, hheader, hbody,
      length_cons]
    omega

/-- ASCII messages are decoded one after the other. -/
theorem decodeFrames_ascii (h : LawfulMessages print parse)
    (hascii : ∀ m ∈ messages, IsAscii (print m)) : decodeFrames parse (text print messages) = (messages, []) := by
  have hitems : (frames parse).decode (text print messages) = (messages.map id, []) :=
    Scanner.decode_items rfl fun m hm t => nextFrame_ascii h (hascii m hm) t
  rw [map_id] at hitems
  exact hitems

/-- The first message that is not ASCII is not decoded. -/
theorem decodeFrames_not_ascii (h : LawfulMessages print parse)
    (hnot : ¬ ∀ m ∈ messages, IsAscii (print m)) : decodeFrames parse (text print messages) ≠ (messages, []) := by
  induction messages with
  | nil => exact absurd (fun _ hm => absurd hm not_mem_nil) hnot
  | cons m messages ih =>
    have hcons : text print (m :: messages) = utf16 (framed (print m)) ++ text print messages := flatMap_cons ..
    rw [hcons]
    by_cases hm : IsAscii (print m)
    · have hrest : ¬ ∀ m ∈ messages, IsAscii (print m) := fun hall => hnot (forall_mem_cons.2 ⟨hm, hall⟩)
      have hnext : (frames parse).next (utf16 (framed (print m)) ++ text print messages) =
          some (some m, text print messages) := nextFrame_ascii h hm _
      intro heq
      unfold decodeFrames at heq
      rw [Scanner.decode_some hnext] at heq
      apply ih hrest
      rw [Prod.mk.injEq] at heq
      exact Prod.ext (List.cons.inj heq.1).2 heq.2
    · intro heq
      unfold decodeFrames at heq
      rcases nextFrame_not_ascii h hm messages with hnone | ⟨k, hlost⟩
      · rw [Scanner.decode_none hnone, Prod.mk.injEq] at heq
        cases heq.1
      · -- too few line feeds are left for the other messages
        rw [Scanner.decode_some hlost, Prod.mk.injEq] at heq
        have hframes := count_frames parse ((text print messages).drop k)
        have hfeeds : ((text print messages).drop k).count 10 ≤ (text print messages).count 10 :=
          (drop_sublist k _).count_le 10
        have hlen := congrArg List.length heq.1
        rw [count_text h] at hfeeds
        unfold decodeFrames at hframes
        rw [length_append, length_cons] at hlen
        have hzero : (none : Option F).toList.length = 0 := rfl
        omega

/-! ## Chunks -/

theorem utf16_lossy_ascii {bytes : List UInt8} (h : ∀ b ∈ bytes, b < 0x80) :
    utf16 (utf8Lossy bytes) = bytes.map UInt8.toNat := by
  unfold utf8Lossy
  induction bytes with
  | nil => rfl
  | cons b bytes ih =>
    have hb := h b (mem_cons_self ..)
    have hunit : utf8Unit b bytes = (Char.ofNat b.toNat, 0) := if_pos hb
    have hsmall : b.toNat < 128 := UInt8.lt_iff_toNat_lt.1 hb
    have hchar := toNat_ofNat_ascii hsmall
    have hascii : utf16Char (Char.ofNat b.toNat) = [b.toNat] := by
      rw [utf16Char_ascii (hchar.symm ▸ hsmall), hchar]
    have hcons : utf16 (Char.ofNat b.toNat :: utf8LossyAux bytes.length bytes) =
        utf16Char (Char.ofNat b.toNat) ++ utf16 (utf8LossyAux bytes.length bytes) := flatMap_cons ..
    rw [length_cons, utf8LossyAux, hunit, drop_zero, hcons, ih fun d hd => h d (mem_cons_of_mem _ hd),
      hascii]
    rfl

theorem utf16_lossy_encode (s : List Char) : utf16 (utf8Lossy (utf8 s)) = utf16 s :=
  congrArg utf16 (utf8LossyAux_encode s (Nat.le_refl _))

theorem isAscii_framed {body : List Char} (h : IsAscii body) : IsAscii (framed body) := by
  rw [framed_eq]
  exact isAscii_append.2 ⟨isAscii_header _, isAscii_append.2 ⟨by decide, h⟩⟩

/-- Every way of cutting ASCII messages gives them. -/
theorem receive_ascii (h : LawfulMessages print parse) (hascii : ∀ m ∈ messages, IsAscii (print m))
    {chunks : List (List UInt8)} (hchunks : chunks.flatten = stream print messages) :
    receive parse chunks = (messages, []) := by
  have hall : IsAscii (messages.flatMap fun m => sendPacket (print m)) := by
    intro c hc
    obtain ⟨m, hm, hc⟩ := mem_flatMap.1 hc
    exact isAscii_framed (hascii m hm) c hc
  have hbytes : ∀ b ∈ chunks.flatten, b < 0x80 := by
    rw [hchunks]
    unfold stream
    rw [utf8_ascii hall]
    intro b hb
    obtain ⟨c, hc, rfl⟩ := mem_map.1 hb
    have hsmall := hall c hc
    rw [UInt8.lt_iff_toNat_lt, toNat_byte (by omega)]
    exact hsmall
  have hmap : chunks.map (fun chunk => utf16 (utf8Lossy chunk)) = chunks.map (List.map UInt8.toNat) := by
    apply map_congr_left
    intro chunk hchunk
    exact utf16_lossy_ascii fun b hb => hbytes b (mem_flatten.2 ⟨chunk, hchunk, hb⟩)
  have htext : chunks.flatten.map UInt8.toNat = text print messages := by
    rw [hchunks, ← utf16_stream, utf16_ascii hall]
    unfold stream
    rw [utf8_ascii hall, map_map]
    apply map_congr_left
    intro c hc
    have hsmall := hall c hc
    exact toNat_byte (by omega)
  unfold receive
  rw [Scanner.receive_eq rfl, hmap, ← map_flatten, htext]
  exact decodeFrames_ascii h hascii

/-- In one chunk the string is the right one. -/
theorem receive_stream (print : F → List Char) (parse : List Nat → Option F) (messages : List F) :
    receive parse [stream print messages] = decodeFrames parse (text print messages) := by
  unfold receive
  rw [Scanner.receive_eq rfl, map_singleton, flatten_singleton]
  unfold stream
  rw [utf16_lossy_encode, utf16_stream]
  rfl

end

/-! ## The adapter -/

/-- `read_line`: up to the next line feed, which is part of the line, or to the end. -/
def readLine : List UInt8 → List UInt8 × List UInt8
  | [] => ([], [])
  | b :: s => if b = 10 then ([b], s) else (b :: (readLine s).1, (readLine s).2)

/-- `parse::<usize>()`. -/
def parseUsize (s : List Char) : Option Nat :=
  let number := if s.head? = some '+' then s.drop 1 else s
  if number ≠ [] ∧ number.all Char.isDigit = true ∧ Nat.ofDigitChars 10 number 0 < 2 ^ 64 then
    some (Nat.ofDigitChars 10 number 0)
  else none

def parseContentLength (line : List Char) : Option Nat :=
  if "Content-Length: ".toList <+: line then parseUsize (trim (line.drop 16)) else none

/-- The main loop on its standard input: the requests it hands to the debugger. `parseRequest` is `serde_json::from_str`
into a `DapRequest`. A line that is no text ends the loop, as does the end of the input. -/
def serveRequests (parseRequest : List Char → Option R) : Nat → List UInt8 → List R
  | 0, _ => []
  | fuel + 1, input =>
    -- `Ok(0)`
    if (readLine input).1 = [] then []
    else
      match fromUtf8 (readLine input).1 with
      | .error _ => []
      | .ok line =>
        if trim line.toList = [] then serveRequests parseRequest fuel (readLine input).2
        else
          match parseContentLength line.toList with
          | none => serveRequests parseRequest fuel (readLine input).2
          | some contentLength =>
            -- the blank line
            match fromUtf8 (readLine (readLine input).2).1 with
            | .error _ => []
            | .ok _ =>
              match readExact (readLine (readLine input).2).2 contentLength with
              | none => []
              | some (body, input) =>
                match parseRequest (utf8Lossy body) with
                | none => serveRequests parseRequest fuel input
                | some r => r :: serveRequests parseRequest fuel input

/-- What the adapter relies on: a request that `JSON.stringify` has printed is parsed as that request, and no string is
longer than `2 ^ 53 - 1`. `R` is the type of the requests that JSON can carry. -/
structure LawfulRequests (stringify : R → List Char) (parseRequest : List Char → Option R) : Prop where
  parse_stringify : ∀ r, parseRequest (stringify r) = some r
  short : ∀ r, (stringify r).length < 2 ^ 53

theorem readLine_line {front : List UInt8} (h : 10 ∉ front) (rest : List UInt8) :
    readLine (front ++ 10 :: rest) = (front ++ [10], rest) := by
  induction front with
  | nil => rfl
  | cons b front ih =>
    have hb : ¬ b = 10 := fun heq => h (heq ▸ mem_cons_self ..)
    rw [cons_append]
    unfold readLine
    rw [if_neg hb, ih fun hmem => h (mem_cons_of_mem _ hmem)]
    rfl

theorem fromUtf8_utf8 (s : List Char) : fromUtf8 (utf8 s) = .ok (String.ofList s) := by
  have hbytes : utf8 s = (String.ofList s).toUTF8.toList := by
    rw [Hal.toUTF8_toList, String.toList_ofList]
    rfl
  unfold fromUtf8
  rw [hbytes, Hal.fromUTF8?_toList]

theorem not_space_digits {c : Char} (h : c ∈ digits n) : isWhitespace c = false := by
  have hrange := digits_range h
  unfold isWhitespace
  simp only [Bool.or_eq_false_iff, Bool.and_eq_false_iff, decide_eq_false_iff_not]
  omega

theorem digits_ne_nil (n : Nat) : digits n ≠ [] := Nat.toDigits_ne_nil

/-- The line of a header, read with its line end. -/
theorem trim_header (n : Nat) : trim (header n ++ "\r\n".toList) = header n := by
  apply trim_behind (by decide)
  · exact append_ne_nil_of_right_ne_nil _ (digits_ne_nil n)
  · intro c hc
    cases hc
    decide
  · intro c hc
    unfold header at hc
    rw [getLast?_append_of_ne_nil _ (digits_ne_nil n)] at hc
    exact not_space_digits (mem_of_getLast? hc)

theorem parseUsize_digits (h : n < 2 ^ 64) : parseUsize (digits n) = some n := by
  have hplus : (digits n).head? ≠ some '+' := by
    intro hhead
    have hrange := digits_range (mem_of_head? hhead)
    exact absurd hrange (by decide)
  have hvalue : Nat.ofDigitChars 10 (digits n) 0 = n := Nat.ofDigitChars_ten_toDigits
  have hdigit : (digits n).all Char.isDigit = true :=
    all_eq_true.2 fun c hc => Nat.isDigit_of_mem_toDigits (by decide) (by decide) hc
  unfold parseUsize
  rw [if_neg hplus]
  dsimp only
  rw [hvalue]
  exact if_pos ⟨digits_ne_nil n, hdigit, h⟩

theorem parseContentLength_header (h : n < 2 ^ 64) :
    parseContentLength (header n ++ "\r\n".toList) = some n := by
  have hprefix : "Content-Length: ".toList <+: header n ++ "\r\n".toList := by
    unfold header
    rw [List.append_assoc]
    exact prefix_append ..
  have hdrop : (header n ++ "\r\n".toList).drop 16 = digits n ++ "\r\n".toList := rfl
  have htrim : trim (digits n ++ "\r\n".toList) = digits n := by
    apply trim_behind (by decide) (digits_ne_nil n)
    · exact fun c hc => not_space_digits (mem_of_head? hc)
    · exact fun c hc => not_space_digits (mem_of_getLast? hc)
  unfold parseContentLength
  rw [if_pos hprefix, hdrop, htrim, parseUsize_digits h]

section
variable {stringify : R → List Char} {parseRequest : List Char → Option R}

/-- A request at the front of the input is handed on. -/
theorem serveRequests_cons (h : LawfulRequests stringify parseRequest) (r : R) (fuel : Nat) (rest : List UInt8) :
    serveRequests parseRequest (fuel + 1) (utf8 (encodeRequest stringify r) ++ rest) =
      r :: serveRequests parseRequest fuel rest := by
  have hshort : (utf8 (stringify r)).length < 2 ^ 64 := by
    have hlen := length_utf8_le (stringify r)
    have hbound := h.short r
    omega
  -- the bytes are those of the header line, those of the empty line, and those of the body
  have hline : utf8 (header (utf8 (stringify r)).length ++ "\r\n".toList) =
      (utf8 (header (utf8 (stringify r)).length) ++ [13]) ++ [10] := by
    rw [utf8_append, List.append_assoc]
    rfl
  have hbytes : utf8 (encodeRequest stringify r) ++ rest = (utf8 (header (utf8 (stringify r)).length) ++ [13]) ++
      10 :: ([13] ++ 10 :: (utf8 (stringify r) ++ rest)) := by
    unfold encodeRequest
    rw [framed_eq, utf8_append, utf8_append, List.append_assoc, List.append_assoc, List.append_assoc]
    rfl
  have hfeed : 10 ∉ utf8 (header (utf8 (stringify r)).length) ++ [13] := by
    rw [utf8_ascii (isAscii_header _)]
    intro hmem
    rcases mem_append.1 hmem with hmem | hmem
    · obtain ⟨c, hc, heq⟩ := mem_map.1 hmem
      have hsmall := isAscii_header _ c hc
      have hunit : c.toNat = 10 := by
        have hnat := congrArg UInt8.toNat heq
        rwa [toNat_byte (by omega)] at hnat
      apply not_mem_header (u := 10) (by decide) (utf8 (stringify r)).length
      rw [utf16_ascii (isAscii_header _)]
      exact mem_map.2 ⟨c, hc, hunit⟩
    · exact absurd (mem_singleton.1 hmem) (by decide)
  have hblank : readLine ([13] ++ 10 :: (utf8 (stringify r) ++ rest)) =
      ([13] ++ [10], utf8 (stringify r) ++ rest) := readLine_line (by decide) _
  have hempty : fromUtf8 ([13] ++ [10]) = .ok (String.ofList "\r\n".toList) := fromUtf8_utf8 "\r\n".toList
  have htrim : ¬ trim (header (utf8 (stringify r)).length ++ "\r\n".toList) = [] := by
    rw [trim_header]
    exact append_ne_nil_of_right_ne_nil _ (digits_ne_nil _)
  have hne : utf8 (header (utf8 (stringify r)).length ++ "\r\n".toList) ≠ [] := by
    rw [hline]
    exact append_ne_nil_of_right_ne_nil _ (cons_ne_nil _ _)
  have hbody : readExact (utf8 (stringify r) ++ rest) (utf8 (stringify r)).length = some (utf8 (stringify r), rest) :=
    readExact_append rest rfl
  have htext : utf8Lossy (utf8 (stringify r)) = stringify r := utf8LossyAux_encode _ (Nat.le_refl _)
  rw [hbytes]
  conv_lhs => unfold serveRequests
  rw [readLine_line hfeed, ← hline]
  dsimp only
  rw [if_neg hne, fromUtf8_utf8]
  dsimp only
  rw [String.toList_ofList, if_neg htrim, parseContentLength_header hshort]
  dsimp only
  rw [hblank]
  dsimp only
  rw [hempty]
  dsimp only
  rw [hbody]
  dsimp only
  rw [htext, h.parse_stringify]

/-- **Requests round trip.** The adapter reads the requests as the bridge framed them. -/
theorem serveRequests_encode (h : LawfulRequests stringify parseRequest) (requests : List R) {fuel : Nat}
    (hfuel : requests.length < fuel) :
    serveRequests parseRequest fuel (requests.flatMap fun r => utf8 (encodeRequest stringify r)) = requests := by
  induction requests generalizing fuel with
  | nil =>
    cases fuel with
    | zero => exact absurd hfuel (Nat.not_lt_zero _)
    | succ fuel => rfl
  | cons r requests ih =>
    cases fuel with
    | zero => exact absurd hfuel (Nat.not_lt_zero _)
    | succ fuel =>
      rw [flatMap_cons, serveRequests_cons h, ih (Nat.lt_of_succ_lt_succ hfuel)]

end

/-! ## Both directions -/

/-- **Framing does not depend on chunks**: the messages come through for every way of cutting their stream, and nothing
is left in the buffer; and the adapter reads the requests that are sent. -/
structure Framing (print : F → List Char) (parse : List Nat → Option F) (stringify : R → List Char)
    (parseRequest : List Char → Option R) (messages : List F) (requests : List R) : Prop where
  received : ∀ chunks : List (List UInt8), chunks.flatten = stream print messages →
    receive parse chunks = (messages, [])
  served : ∀ fuel, requests.length < fuel →
    serveRequests parseRequest fuel (requests.flatMap fun r => utf8 (encodeRequest stringify r)) = requests

/-- **Framing holds exactly for ASCII messages**, for every list of messages and of requests. -/
theorem framing_iff {print : F → List Char} {parse : List Nat → Option F} {stringify : R → List Char}
    {parseRequest : List Char → Option R} (hmessages : LawfulMessages print parse)
    (hrequests : LawfulRequests stringify parseRequest) (messages : List F) (requests : List R) :
    Framing print parse stringify parseRequest messages requests ↔ ∀ m ∈ messages, IsAscii (print m) := by
  constructor
  · intro h
    by_contra hnot
    apply decodeFrames_not_ascii hmessages hnot
    rw [← receive_stream]
    exact h.received [stream print messages] (flatten_singleton ..)
  · intro hascii
    refine ⟨?_, ?_⟩
    · exact fun chunks hchunks => receive_ascii hmessages hascii hchunks
    · exact fun fuel hfuel => serveRequests_encode hrequests requests hfuel

/-- Two messages, one with a letter that is not ASCII. -/
def printSample : Bool → List Char
  | false => "\x7b\"event\":\"stopped\"\x7d".toList
  | true => "\x7b\"message\":\"é\"\x7d".toList

/-- `JSON.parse` on the two. -/
def parseSample (s : List Nat) : Option Bool :=
  if s = utf16 (printSample false) then some false else if s = utf16 (printSample true) then some true else none

/-- Two requests. -/
def stringifySample : Bool → List Char
  | false => "\x7b\"seq\":1,\"command\":\"attach\"\x7d".toList
  | true => "\x7b\"seq\":2,\"command\":\"é\"\x7d".toList

/-- `serde_json::from_str` on the two. -/
def parseRequestSample (s : List Char) : Option Bool :=
  if s = stringifySample false then some false else if s = stringifySample true then some true else none

theorem lawfulMessages_sample : LawfulMessages printSample parseSample where
  parse_print m := by cases m <;> decide
  noControl m c hc := by
    have hall : ((printSample m).all fun c => 32 ≤ c.toNat) = true := by cases m <;> decide
    exact of_decide_eq_true (all_eq_true.1 hall c hc)
  trailing m u rest _ := by
    cases m <;> exact (if_neg fun heq => by cases heq).trans (if_neg fun heq => by cases heq)

theorem lawfulRequests_sample : LawfulRequests stringifySample parseRequestSample where
  parse_stringify r := by cases r <;> decide
  short r := by cases r <;> decide

theorem framing_iff_ascii :
    Framing printSample parseSample stringifySample parseRequestSample [false, false] [true, false] :=
  (framing_iff lawfulMessages_sample lawfulRequests_sample [false, false] [true, false]).2 (by decide)

/-- One message with one letter that is not ASCII, in one chunk: `decodeFrames` waits for a unit that is not sent. -/
theorem framing_fails : ¬ ∀ (print : Bool → List Char) (parse : List Nat → Option Bool) (stringify : Bool → List Char)
    (parseRequest : List Char → Option Bool), LawfulMessages print parse → LawfulRequests stringify parseRequest →
      ∀ messages requests, Framing print parse stringify parseRequest messages requests := by
  intro h
  have hframing := h printSample parseSample stringifySample parseRequestSample lawfulMessages_sample
    lawfulRequests_sample [true] []
  have hreceived := hframing.received [stream printSample [true]] (flatten_singleton ..)
  rw [receive_stream] at hreceived
  exact decodeFrames_not_ascii lawfulMessages_sample (by decide) hreceived

end Audesys.Debug
