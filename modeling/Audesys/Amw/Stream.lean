import Audesys.Hal.Encoding

/-!
# `Amw.Stream` — the in-process stream channel

`stream.rs` of `audesys-amw-inproc`: writers and readers share one queue behind one mutex, so a run is a
sequence of calls. A `write` pushes under the overflow policy of the channel and then calls the subscribers; a
`read` pops. Entries are opaque to the channel; the values are numbered by the write that brought them
(`number`), which no channel operation can see (`Forgets`), so that "in write order" and "at most once" say
something about entries with equal values, too.

The channel drops from the front and adds at the back. All that is proved rests on two facts about a call: what
left the queue is a prefix of what was taken into it (`Ledger.Fifo`), and under `DropOldest` the queue is the
end of what came after the last entry read (`Ledger.Window`).
-/

open List

namespace Audesys.Amw

open Audesys.Hal

variable {V T : Type}

/-! ## The channel -/

/-- Queue overflow policy. -/
inductive QueuePolicy where
  | dropOldest | backpressure | dropNewest
  deriving DecidableEq

/-- The two fields of `StreamConfig` that the channel reads. -/
structure StreamConfig where
  queueDepth : Nat
  queuePolicy : QueuePolicy
  deriving DecidableEq

/-- How a subscriber callback ends. -/
inductive CallbackEnd where
  | returns | panics
  deriving DecidableEq

def backpressureMaxRetries : Nat := 10

structure StreamChannelInner (V T : Type) where
  queue : List (V × T)
  subscribers : List (V → T → CallbackEnd)
  config : StreamConfig

namespace StreamChannelInner

def new (config : StreamConfig) : StreamChannelInner V T := ⟨[], [], config⟩

/-- Append to the queue (`push_back`). -/
def pushBack (c : StreamChannelInner V T) (value : V) (ts : T) : StreamChannelInner V T :=
  { c with queue := c.queue ++ [(value, ts)] }

/-- The loop of the `Backpressure` branch, with `retries` rounds to go. The caller holds the lock while it
    sleeps, so every round finds the same queue. -/
def retryPush (c : StreamChannelInner V T) (value : V) (ts : T) :
    Nat → StreamChannelInner V T × Except HalError Unit
  | 0 => (c, .error (.internal "stream backpressure timeout"))
  | retries + 1 =>
    if c.queue.length < c.config.queueDepth then
      (c.pushBack value ts, .ok ())
    else
      retryPush c value ts retries

/-- Push a value into the queue, handling overflow per policy. -/
def push (c : StreamChannelInner V T) (value : V) (ts : T) : StreamChannelInner V T × Except HalError Unit :=
  if c.queue.length ≥ c.config.queueDepth then
    match c.config.queuePolicy with
    | .dropOldest => (pushBack { c with queue := c.queue.tail } value ts, .ok ())
    | .dropNewest => (c, .ok ())
    | .backpressure => c.retryPush value ts backpressureMaxRetries
  else
    (c.pushBack value ts, .ok ())

/-- Pop the oldest value from the queue. -/
def pop (c : StreamChannelInner V T) : StreamChannelInner V T × Option (V × T) :=
  ({ c with queue := c.queue.tail }, c.queue.head?)

/-- Call the subscribers one after the other; a panic unwinds out of the loop. -/
def notifySubscribers (c : StreamChannelInner V T) (value : V) (ts : T) : CallbackEnd :=
  if c.subscribers.all (fun cb => cb value ts == .returns) then .returns else .panics

end StreamChannelInner

/-- The channel behind its mutex, which a panic under the lock poisons. -/
structure Channel (V T : Type) where
  inner : StreamChannelInner V T
  poisoned : Bool

/-- The calls on the handles of a channel. -/
inductive Call (V T : Type) where
  | write (value : V) (ts : T)
  | read
  | subscribe (cb : V → T → CallbackEnd)
  /-- `Drop` of the reader. -/
  | dropReader

/-- What a call comes back with. -/
inductive Reply (V T : Type) where
  | wrote (result : Except HalError Unit)
  | read (result : Except HalError (Option (V × T)))
  | subscribed (result : Except HalError Unit)
  | dropped
  /-- A subscriber panicked inside the call. -/
  | unwound

/-- The error of a call that finds the mutex poisoned. -/
def poisonError (who : String) : HalError :=
  .internal ("stream " ++ who ++ " mutex poisoned: poisoned lock: another task failed inside")

namespace Channel

/-- `create_stream_channel`. -/
def create (config : StreamConfig) : Channel V T := ⟨.new config, false⟩

def write (c : Channel V T) (value : V) (ts : T) : Channel V T × Reply V T :=
  if c.poisoned then
    (c, .wrote (.error (poisonError "writer")))
  else
    let (inner, result) := c.inner.push value ts
    match result with
    | .error e => ({ c with inner }, .wrote (.error e))
    | .ok () =>
      match inner.notifySubscribers value ts with
      | .returns => ({ c with inner }, .wrote (.ok ()))
      | .panics => (⟨inner, true⟩, .unwound)

def read (c : Channel V T) : Channel V T × Reply V T :=
  if c.poisoned then
    (c, .read (.error (poisonError "reader")))
  else
    let (inner, entry) := c.inner.pop
    ({ c with inner }, .read (.ok entry))

def subscribe (c : Channel V T) (cb : V → T → CallbackEnd) : Channel V T × Reply V T :=
  if c.poisoned then
    (c, .subscribed (.error (poisonError "subscribe")))
  else
    ({ c with inner := { c.inner with subscribers := c.inner.subscribers ++ [cb] } }, .subscribed (.ok ()))

def dropReader (c : Channel V T) : Channel V T × Reply V T :=
  if c.poisoned then
    (c, .dropped)
  else
    ({ c with inner := { c.inner with subscribers := [] } }, .dropped)

def call (c : Channel V T) : Call V T → Channel V T × Reply V T
  | .write value ts => c.write value ts
  | .read => c.read
  | .subscribe cb => c.subscribe cb
  | .dropReader => c.dropReader

/-- The queue has no room. -/
def Full (c : Channel V T) : Prop := c.inner.config.queueDepth ≤ c.inner.queue.length

instance (c : Channel V T) : Decidable c.Full := inferInstanceAs (Decidable (_ ≤ _))

/-- A write that comes now puts its entry into the queue. -/
def Takes (c : Channel V T) : Prop :=
  c.poisoned = false ∧ (¬ c.Full ∨ c.inner.config.queuePolicy = .dropOldest)

instance (c : Channel V T) : Decidable c.Takes := inferInstanceAs (Decidable (_ ∧ _))

end Channel

/-! ## What went through the channel -/

/-- The entry that a read returned, if this is the reply of one. -/
def Reply.entries : Reply V T → List (V × T)
  | .read (.ok (some entry)) => [entry]
  | _ => []

/-- The books of a run: the entries taken into the queue, returned by reads, and dropped for newer ones, each
    in the order in which it happened. -/
structure Ledger (V T : Type) where
  taken : List (V × T) := []
  returned : List (V × T) := []
  dropped : List (V × T) := []

/-- The books after a call on `c`. -/
def Ledger.after (l : Ledger V T) (c : Channel V T) : Call V T → Ledger V T
  | .write value ts =>
    if c.Takes then
      { l with
        taken := l.taken ++ [(value, ts)]
        dropped := l.dropped ++ if c.Full then c.inner.queue.head?.toList else [] }
    else l
  | .read => { l with returned := l.returned ++ c.read.2.entries }
  | _ => l

/-- The calls of a run, one after the other: each holds the mutex from its start to its end. -/
def Channel.run (c : Channel V T) (l : Ledger V T) : List (Call V T) → Channel V T × Ledger V T
  | [] => (c, l)
  | k :: calls => run (c.call k).1 (l.after c k) calls

/-- What one call does to the queue and the books. -/
inductive Moves (c : Channel V T) (l : Ledger V T) : List (V × T) → Ledger V T → Prop
  /-- Nothing moves. -/
  | stays : Moves c l c.inner.queue l
  /-- A write finds room. -/
  | enters (e : V × T) (room : ¬ c.Full) :
    Moves c l (c.inner.queue ++ [e]) { l with taken := l.taken ++ [e] }
  /-- A write drops the oldest entry. -/
  | displaces (e x : V × T) (q : List (V × T)) (full : c.Full)
      (policy : c.inner.config.queuePolicy = .dropOldest) (front : c.inner.queue = x :: q) :
    Moves c l (q ++ [e]) { l with taken := l.taken ++ [e], dropped := l.dropped ++ [x] }
  /-- A read takes the oldest entry. -/
  | leaves (x : V × T) (q : List (V × T)) (front : c.inner.queue = x :: q) :
    Moves c l q { l with returned := l.returned ++ [x] }

namespace StreamChannelInner

/-- The retries find the queue as the push found it. -/
theorem retryPush_full {c : StreamChannelInner V T} (h : c.config.queueDepth ≤ c.queue.length) (value : V)
    (ts : T) (retries : Nat) :
    c.retryPush value ts retries = (c, .error (.internal "stream backpressure timeout")) := by
  induction retries with
  | zero => rfl
  | succ retries ih =>
    rw [retryPush, if_neg (by omega)]
    exact ih

theorem push_room {c : StreamChannelInner V T} (h : ¬ c.config.queueDepth ≤ c.queue.length) (value : V)
    (ts : T) : c.push value ts = (c.pushBack value ts, .ok ()) := by
  rw [push, if_neg (by omega)]

theorem push_full {c : StreamChannelInner V T} (h : c.config.queueDepth ≤ c.queue.length) (value : V)
    (ts : T) :
    c.push value ts = match c.config.queuePolicy with
      | .dropOldest => (pushBack { c with queue := c.queue.tail } value ts, .ok ())
      | .dropNewest => (c, .ok ())
      | .backpressure => (c, .error (.internal "stream backpressure timeout")) := by
  rw [push, if_pos h]
  cases c.config.queuePolicy with
  | backpressure => exact retryPush_full h value ts _
  | dropOldest => rfl
  | dropNewest => rfl

@[simp] theorem push_config (c : StreamChannelInner V T) (value : V) (ts : T) :
    (c.push value ts).1.config = c.config := by
  by_cases h : c.config.queueDepth ≤ c.queue.length
  · rw [push_full h]
    cases c.config.queuePolicy <;> rfl
  · rw [push_room h, pushBack]

@[simp] theorem push_subscribers (c : StreamChannelInner V T) (value : V) (ts : T) :
    (c.push value ts).1.subscribers = c.subscribers := by
  by_cases h : c.config.queueDepth ≤ c.queue.length
  · rw [push_full h]
    cases c.config.queuePolicy <;> rfl
  · rw [push_room h, pushBack]

end StreamChannelInner

namespace Channel

/-- A write leaves the channel as its push does, poisoned or not. -/
theorem write_inner {c : Channel V T} (h : c.poisoned = false) (value : V) (ts : T) :
    (c.write value ts).1.inner = (c.inner.push value ts).1 := by
  rw [write, if_neg (by simp [h])]
  rcases hp : c.inner.push value ts with ⟨inner, _ | _⟩
  · rfl
  · simp only
    cases inner.notifySubscribers value ts <;> rfl

theorem call_poisoned {c : Channel V T} (h : c.poisoned = true) (k : Call V T) : (c.call k).1 = c := by
  cases k <;> simp [call, write, read, subscribe, dropReader, h]

theorem call_config (c : Channel V T) (k : Call V T) : (c.call k).1.inner.config = c.inner.config := by
  by_cases h : c.poisoned = true
  · rw [call_poisoned h]
  · have h : c.poisoned = false := by simpa using h
    cases k with
    | write value ts => rw [call, write_inner h, StreamChannelInner.push_config]
    | read => simp [call, read, h, StreamChannelInner.pop]
    | subscribe cb => simp [call, subscribe, h]
    | dropReader => simp [call, dropReader, h]

/-- **What a call can do.** -/
theorem call_moves {c : Channel V T} (depth : 1 ≤ c.inner.config.queueDepth) (l : Ledger V T) (k : Call V T) :
    Moves c l (c.call k).1.inner.queue (l.after c k) := by
  by_cases h : c.poisoned = true
  · rw [call_poisoned h]
    cases k <;> simp [Ledger.after, Takes, read, Reply.entries, h, Moves.stays]
  have h : c.poisoned = false := by simpa using h
  cases k with
  | write value ts =>
    rw [call, write_inner h]
    by_cases full : c.Full
    · rw [StreamChannelInner.push_full full]
      cases policy : c.inner.config.queuePolicy with
      | dropOldest =>
        -- a full queue is not empty, because it may hold an entry
        cases front : c.inner.queue with
        | nil => simp [Full, front] at full; omega
        | cons x q =>
          simpa [Ledger.after, Takes, h, full, policy, front, StreamChannelInner.pushBack] using
            Moves.displaces (l := l) (value, ts) x q full policy front
      | backpressure => simpa [Ledger.after, Takes, full, policy] using Moves.stays (c := c) (l := l)
      | dropNewest => simpa [Ledger.after, Takes, full, policy] using Moves.stays (c := c) (l := l)
    · rw [StreamChannelInner.push_room full]
      simpa [Ledger.after, Takes, h, full, StreamChannelInner.pushBack] using
        Moves.enters (l := l) (value, ts) full
  | read =>
    cases front : c.inner.queue with
    | nil =>
      simpa [call, read, h, StreamChannelInner.pop, Ledger.after, Reply.entries, front] using
        Moves.stays (c := c) (l := l)
    | cons x q =>
      simpa [call, read, h, StreamChannelInner.pop, Ledger.after, Reply.entries, front] using
        Moves.leaves (l := l) x q front
  | subscribe cb => simpa [call, subscribe, h, Ledger.after] using Moves.stays (c := c) (l := l)
  | dropReader => simpa [call, dropReader, h, Ledger.after] using Moves.stays (c := c) (l := l)

end Channel

/-! ## First in, first out -/

/-- The last `n` entries of a list. -/
def lastOf {α : Type} (n : Nat) (l : List α) : List α := l.drop (l.length - n)

theorem lastOf_of_le {α : Type} {n : Nat} {l : List α} (h : l.length ≤ n) : lastOf n l = l := by
  rw [lastOf, Nat.sub_eq_zero_of_le h, drop_zero]

/-- The last `n` of a list that grows: where the end was full, its oldest element goes. -/
theorem lastOf_concat {α : Type} {n : Nat} {l q : List α} {x : α} (h : lastOf n l = x :: q) (e : α)
    (full : q.length + 1 = n) : lastOf n (l ++ [e]) = q ++ [e] := by
  have len : (lastOf n l).length = n := by rw [h, length_cons, full]
  have more : n ≤ l.length := by simp only [lastOf, length_drop] at len; omega
  have cut : l.drop (l.length + 1 - n) = q := by
    have : l.drop (l.length - n + 1) = (x :: q).tail := by rw [← tail_drop, ← h, lastOf]
    rw [Nat.sub_add_comm more]
    exact this
  rw [lastOf, length_append, length_singleton, drop_append_of_le_length (by omega), cut]

/-- Where the end has room, everything stays. -/
theorem lastOf_concat_room {α : Type} {n : Nat} {l : List α} (e : α) (room : (lastOf n l).length < n) :
    lastOf n (l ++ [e]) = lastOf n l ++ [e] := by
  have few : l.length < n := by simp only [lastOf, length_drop] at room; omega
  rw [lastOf_of_le few.le, lastOf_of_le (by simpa [Nat.succ_le_iff] using few)]

/-- The queue is the end of what was taken; what is in front of it went to a reader or was dropped. -/
structure Ledger.Fifo (l : Ledger V T) (queue : List (V × T)) : Prop where
  gone : ∃ gone, l.taken = gone ++ queue ∧ l.returned.Sublist gone ∧ l.dropped.Sublist gone ∧
    gone.Perm (l.returned ++ l.dropped)

/-- The queue is the end, at most `depth` long, of what was taken after the last entry returned. -/
structure Ledger.Window (l : Ledger V T) (depth : Nat) (queue : List (V × T)) : Prop where
  unread : ∃ old unread, l.taken = old ++ unread ∧ old.getLast? = l.returned.getLast? ∧
    queue = lastOf depth unread

section Step

variable {c : Channel V T} {l l' : Ledger V T} {queue : List (V × T)}

theorem Moves.bounded (h : Moves c l queue l') (hb : c.inner.queue.length ≤ c.inner.config.queueDepth) :
    queue.length ≤ c.inner.config.queueDepth := by
  cases h with
  | stays => exact hb
  | enters e room =>
    simp only [Channel.Full] at room
    simp only [length_append, length_singleton]
    omega
  | displaces e x q full policy front =>
    rw [front, length_cons] at hb
    simpa using hb
  | leaves x q front =>
    rw [front, length_cons] at hb
    omega

theorem Moves.fifo (h : Moves c l queue l') (hf : l.Fifo c.inner.queue) : l'.Fifo queue := by
  obtain ⟨gone, ht, hr, hd, hp⟩ := hf
  cases h with
  | stays => exact ⟨gone, ht, hr, hd, hp⟩
  | enters e room => exact ⟨gone, by simp [ht], hr, hd, hp⟩
  | displaces e x q full policy front =>
    refine ⟨gone ++ [x], by simp [ht, front], hr.trans (sublist_append_left _ _), hd.append_right _, ?_⟩
    simpa [List.append_assoc] using hp.append_right [x]
  | leaves x q front =>
    refine ⟨gone ++ [x], by simp [ht, front], hr.append_right _, hd.trans (sublist_append_left _ _), ?_⟩
    have swap : (l.dropped ++ [x]).Perm ([x] ++ l.dropped) := perm_append_comm
    calc gone ++ [x]
      _ |>.Perm ((l.returned ++ l.dropped) ++ [x]) := hp.append_right [x]
      _ |>.Perm ((l.returned ++ [x]) ++ l.dropped) := by
        simpa [List.append_assoc] using swap.append_left l.returned

theorem Moves.window (h : Moves c l queue l') (hb : c.inner.queue.length ≤ c.inner.config.queueDepth)
    (hw : l.Window c.inner.config.queueDepth c.inner.queue) : l'.Window c.inner.config.queueDepth queue := by
  obtain ⟨old, unread, ht, hl, hq⟩ := hw
  cases h with
  | stays => exact ⟨old, unread, ht, hl, hq⟩
  | enters e room =>
    refine ⟨old, unread ++ [e], by simp [ht], hl, ?_⟩
    rw [hq, lastOf_concat_room e]
    simpa [Channel.Full, ← hq] using room
  | displaces e x q full policy front =>
    refine ⟨old, unread ++ [e], by simp [ht], hl, ?_⟩
    rw [front] at hq hb
    simp only [Channel.Full, front] at full
    exact (lastOf_concat hq.symm e (Nat.le_antisymm hb full)).symm
  | leaves x _ front =>
    -- everything up to the entry read is old now, and what is left of the queue fits
    rw [front] at hq hb
    have cut : unread = unread.take (unread.length - c.inner.config.queueDepth) ++ x :: queue := by
      rw [hq, lastOf, take_append_drop]
    refine ⟨old ++ unread.take (unread.length - c.inner.config.queueDepth) ++ [x], queue, ?_, by simp, ?_⟩
    · rw [ht, List.append_assoc, List.append_assoc, singleton_append, ← cut]
    · exact (lastOf_of_le (by simp only [length_cons] at hb; omega)).symm

/-- Only `DropOldest` drops. -/
theorem Moves.dropped (h : Moves c l queue l') (hp : c.inner.config.queuePolicy ≠ .dropOldest) :
    l'.dropped = l.dropped := by
  cases h with
  | displaces e x q full policy front => exact absurd policy hp
  | _ => rfl

end Step

/-- The books of a run and the queue they belong to. -/
structure Kept (config : StreamConfig) (c : Channel V T) (l : Ledger V T) : Prop where
  same : c.inner.config = config
  bounded : c.inner.queue.length ≤ config.queueDepth
  fifo : l.Fifo c.inner.queue
  window : l.Window config.queueDepth c.inner.queue
  dropped : config.queuePolicy ≠ .dropOldest → l.dropped = []

theorem Kept.create (config : StreamConfig) : Kept config (Channel.create (V := V) (T := T) config) {} where
  same := rfl
  bounded := Nat.zero_le _
  fifo := ⟨[], rfl, .slnil, .slnil, .nil⟩
  window := ⟨[], [], rfl, rfl, by simp [lastOf, Channel.create, StreamChannelInner.new]⟩
  dropped _ := rfl

theorem Kept.call {config : StreamConfig} {c : Channel V T} {l : Ledger V T} (h : Kept config c l)
    (depth : 1 ≤ config.queueDepth) (k : Call V T) : Kept config (c.call k).1 (l.after c k) := by
  obtain ⟨rfl, hb, hf, hw, hd⟩ := h
  have moves := Channel.call_moves depth l k
  exact {
    same := Channel.call_config c k
    bounded := moves.bounded hb
    fifo := moves.fifo hf
    window := moves.window hb hw
    dropped := fun hp => (moves.dropped hp).trans (hd hp) }

theorem Kept.run {config : StreamConfig} (depth : 1 ≤ config.queueDepth) (calls : List (Call V T))
    {c : Channel V T} {l : Ledger V T} (h : Kept config c l) :
    Kept config (c.run l calls).1 (c.run l calls).2 := by
  induction calls generalizing c l with
  | nil => exact h
  | cons k calls ih => exact ih (h.call depth k)

/-! ## Numbered entries -/

/-- The same calls, each written value numbered by its place among the writes, from `n` on. -/
def number (n : Nat) : List (Call V T) → List (Call (Nat × V) T)
  | [] => []
  | .write value ts :: calls => .write (n, value) ts :: number (n + 1) calls
  | .read :: calls => .read :: number n calls
  | .subscribe cb :: calls => .subscribe (fun value ts => cb value.2 ts) :: number n calls
  | .dropReader :: calls => .dropReader :: number n calls

/-- An entry without its number. -/
def forget (e : (Nat × V) × T) : V × T := (e.1.2, e.2)

/-- The numbered channel `c` is the channel `d` once its numbers are forgotten. -/
structure InnerForgets (c : StreamChannelInner (Nat × V) T) (d : StreamChannelInner V T) : Prop where
  queue : c.queue.map forget = d.queue
  config : c.config = d.config
  subscribers : c.subscribers = d.subscribers.map (fun cb value ts => cb value.2 ts)

structure Forgets (c : Channel (Nat × V) T) (d : Channel V T) : Prop where
  inner : InnerForgets c.inner d.inner
  poisoned : c.poisoned = d.poisoned

/-- The number of an entry's write. -/
def serial (e : (Nat × V) × T) : Nat := e.1.1

/-- The entries of the writes of a run, numbered. -/
def written (n : Nat) : List (Call V T) → List ((Nat × V) × T)
  | [] => []
  | .write value ts :: calls => ((n, value), ts) :: written (n + 1) calls
  | _ :: calls => written n calls

/-- Neither a subscription nor the end of the reader. -/
def Call.IsWriteOrRead : Call V T → Prop
  | .write _ _ => True
  | .read => True
  | _ => False

/-- Books without the numbers. -/
def Ledger.forget (l : Ledger (Nat × V) T) : Ledger V T :=
  ⟨l.taken.map Amw.forget, l.returned.map Amw.forget, l.dropped.map Amw.forget⟩

theorem written_serial (n : Nat) (calls : List (Call V T)) :
    (written n calls).map serial = List.range' n (written n calls).length := by
  induction calls generalizing n with
  | nil => rfl
  | cons k calls ih =>
    cases k with
    | write value ts => simp [written, serial, range'_succ, ← ih]
    | _ => exact ih n

/-- The numbers of the writes go up. -/
theorem written_increasing (n : Nat) (calls : List (Call V T)) :
    ((written n calls).map serial).Pairwise (· < ·) := by
  rw [written_serial]
  exact pairwise_lt_range'

namespace InnerForgets

variable {c : StreamChannelInner (Nat × V) T} {d : StreamChannelInner V T}

theorem policy (h : InnerForgets c d) : c.config.queuePolicy = d.config.queuePolicy := by rw [h.config]

theorem full (h : InnerForgets c d) :
    c.config.queueDepth ≤ c.queue.length ↔ d.config.queueDepth ≤ d.queue.length := by
  rw [← h.queue, h.config, length_map]

theorem pushBack (h : InnerForgets c d) (n : Nat) (value : V) (ts : T) :
    InnerForgets (c.pushBack (n, value) ts) (d.pushBack value ts) :=
  ⟨by simp [StreamChannelInner.pushBack, ← h.queue, forget], h.config, h.subscribers⟩

theorem tail (h : InnerForgets c d) :
    InnerForgets { c with queue := c.queue.tail } { d with queue := d.queue.tail } :=
  ⟨by simp [← h.queue, map_tail], h.config, h.subscribers⟩

theorem push (h : InnerForgets c d) (n : Nat) (value : V) (ts : T) :
    InnerForgets (c.push (n, value) ts).1 (d.push value ts).1 ∧
      (c.push (n, value) ts).2 = (d.push value ts).2 := by
  by_cases full : d.config.queueDepth ≤ d.queue.length
  · rw [StreamChannelInner.push_full full, StreamChannelInner.push_full (h.full.2 full), h.policy]
    cases d.config.queuePolicy with
    | dropOldest => exact ⟨h.tail.pushBack n value ts, rfl⟩
    | backpressure => exact ⟨h, rfl⟩
    | dropNewest => exact ⟨h, rfl⟩
  · rw [StreamChannelInner.push_room full, StreamChannelInner.push_room (fun hc => full (h.full.1 hc))]
    exact ⟨h.pushBack n value ts, rfl⟩

theorem notify (h : InnerForgets c d) (n : Nat) (value : V) (ts : T) :
    c.notifySubscribers (n, value) ts = d.notifySubscribers value ts := by
  simp only [StreamChannelInner.notifySubscribers, h.subscribers, all_map, Function.comp_def]

end InnerForgets

namespace Forgets

variable {c : Channel (Nat × V) T} {d : Channel V T}

theorem full (h : Forgets c d) : c.Full ↔ d.Full := h.inner.full

theorem takes (h : Forgets c d) : c.Takes ↔ d.Takes := by
  simp only [Channel.Takes, h.full, h.inner.policy, h.poisoned]

/-- A write of a numbered value does what the write of the value does. -/
theorem write (h : Forgets c d) (n : Nat) (value : V) (ts : T) :
    Forgets (c.write (n, value) ts).1 (d.write value ts).1 := by
  by_cases hp : d.poisoned = true
  · rw [Channel.write, if_pos (h.poisoned.trans hp), Channel.write, if_pos hp]
    exact h
  obtain ⟨inner, result⟩ := h.inner.push n value ts
  rw [Channel.write, if_neg (h.poisoned ▸ hp), Channel.write, if_neg hp]
  rcases hd : d.inner.push value ts with ⟨i, _ | _⟩ <;> rcases hc : c.inner.push (n, value) ts with ⟨j, _ | _⟩ <;>
    rw [hc, hd] at inner result <;> simp at result
  · exact ⟨inner, h.poisoned⟩
  · simp only [inner.notify n value ts]
    cases i.notifySubscribers value ts with
    | returns => exact ⟨inner, h.poisoned⟩
    | panics => exact ⟨inner, rfl⟩

theorem read (h : Forgets c d) :
    Forgets c.read.1 d.read.1 ∧ c.read.2.entries.map forget = d.read.2.entries := by
  by_cases hp : d.poisoned = true
  · rw [Channel.read, if_pos (h.poisoned.trans hp), Channel.read, if_pos hp]
    exact ⟨h, rfl⟩
  rw [Channel.read, if_neg (h.poisoned ▸ hp), Channel.read, if_neg hp]
  refine ⟨⟨h.inner.tail, h.poisoned⟩, ?_⟩
  simp only [StreamChannelInner.pop, ← h.inner.queue, head?_map]
  cases c.inner.queue.head? <;> rfl

theorem subscribe (h : Forgets c d) (cb : V → T → CallbackEnd) :
    Forgets (c.subscribe (fun value ts => cb value.2 ts)).1 (d.subscribe cb).1 := by
  by_cases hp : d.poisoned = true
  · rw [Channel.subscribe, if_pos (h.poisoned.trans hp), Channel.subscribe, if_pos hp]
    exact h
  rw [Channel.subscribe, if_neg (h.poisoned ▸ hp), Channel.subscribe, if_neg hp]
  exact ⟨⟨h.inner.queue, h.inner.config, by simp [h.inner.subscribers]⟩, h.poisoned⟩

theorem dropReader (h : Forgets c d) : Forgets c.dropReader.1 d.dropReader.1 := by
  by_cases hp : d.poisoned = true
  · rw [Channel.dropReader, if_pos (h.poisoned.trans hp), Channel.dropReader, if_pos hp]
    exact h
  rw [Channel.dropReader, if_neg (h.poisoned ▸ hp), Channel.dropReader, if_neg hp]
  exact ⟨⟨h.inner.queue, h.inner.config, rfl⟩, h.poisoned⟩

/-- **No operation sees the numbers**: the run of the numbered calls is the run of the calls. -/
theorem run (calls : List (Call V T)) (n : Nat) {c : Channel (Nat × V) T} {d : Channel V T}
    {l : Ledger (Nat × V) T} (h : Forgets c d) :
    Forgets (c.run l (number n calls)).1 (d.run l.forget calls).1 ∧
      (c.run l (number n calls)).2.forget = (d.run l.forget calls).2 := by
  induction calls generalizing n c d l with
  | nil => exact ⟨h, rfl⟩
  | cons k calls ih =>
    cases k with
    | write value ts =>
      have books : l.forget.after d (.write value ts) = (l.after c (.write (n, value) ts)).forget := by
        simp only [Ledger.after, ← h.takes]
        by_cases takes : c.Takes
        · simp only [if_pos takes, ← h.full, ← h.inner.queue, head?_map]
          by_cases full : c.Full
          · cases c.inner.queue.head? <;> simp [Ledger.forget, full, Amw.forget]
          · simp [Ledger.forget, full, Amw.forget]
        · simp only [if_neg takes]
      have := ih (n + 1) (l := l.after c (.write (n, value) ts)) (h.write n value ts)
      rwa [← books] at this
    | read =>
      have books : l.forget.after d .read = (l.after c .read).forget := by
        simp only [Ledger.after, ← h.read.2, Ledger.forget, map_append]
      have := ih n (l := l.after c .read) h.read.1
      rwa [← books] at this
    | subscribe cb => exact ih n (h.subscribe cb)
    | dropReader => exact ih n h.dropReader

end Forgets

/-- What a run takes in, it takes in the order of the writes. -/
theorem run_taken (calls : List (Call V T)) (n : Nat) (c : Channel (Nat × V) T) (l : Ledger (Nat × V) T) :
    ∃ more, (c.run l (number n calls)).2.taken = l.taken ++ more ∧ more.Sublist (written n calls) := by
  induction calls generalizing n c l with
  | nil => exact ⟨[], by simp [number, Channel.run], .slnil⟩
  | cons k calls ih =>
    cases k with
    | write value ts =>
      obtain ⟨more, ht, hs⟩ := ih (n + 1) (c.call (.write (n, value) ts)).1 (l.after c (.write (n, value) ts))
      by_cases takes : c.Takes
      · refine ⟨((n, value), ts) :: more, ?_, hs.cons_cons _⟩
        rw [number, Channel.run, ht]
        simp [Ledger.after, takes]
      · refine ⟨more, ?_, hs.cons _⟩
        rw [number, Channel.run, ht]
        simp [Ledger.after, takes]
    | read => exact ih n c.read.1 (l.after c .read)
    | subscribe cb => exact ih n (c.subscribe (fun value ts => cb value.2 ts)).1 l
    | dropReader => exact ih n c.dropReader.1 l

/-! ## Writes and reads alone -/

/-- Nobody subscribed and the lock is sound. -/
structure Quiet (c : Channel V T) : Prop where
  poisoned : c.poisoned = false
  subscribers : c.inner.subscribers = []

theorem Quiet.call {c : Channel V T} (h : Quiet c) {k : Call V T} (hk : k.IsWriteOrRead) : Quiet (c.call k).1 := by
  cases k with
  | write value ts =>
    refine ⟨?_, by rw [Channel.call, Channel.write_inner h.poisoned, StreamChannelInner.push_subscribers,
      h.subscribers]⟩
    rw [Channel.call, Channel.write, if_neg (by simp [h.poisoned])]
    have none : (c.inner.push value ts).1.notifySubscribers value ts = .returns := by
      rw [StreamChannelInner.notifySubscribers, StreamChannelInner.push_subscribers, h.subscribers]
      rfl
    rcases hp : c.inner.push value ts with ⟨inner, _ | _⟩
    · exact h.poisoned
    · rw [hp] at none
      simp only [none]
      exact h.poisoned
  | read =>
    rw [Channel.call, Channel.read, if_neg (by simp [h.poisoned])]
    exact ⟨h.poisoned, h.subscribers⟩
  | subscribe cb => exact hk.elim
  | dropReader => exact hk.elim

theorem Quiet.run {calls : List (Call V T)} (hk : ∀ k ∈ calls, k.IsWriteOrRead) {c : Channel V T}
    (l : Ledger V T) (h : Quiet c) : Quiet (c.run l calls).1 := by
  induction calls generalizing c l with
  | nil => exact h
  | cons k calls ih =>
    exact ih (fun k' hk' => hk k' (mem_cons_of_mem _ hk')) _ (h.call (hk k mem_cons_self))

/-- With `DropOldest`, no write is turned away. -/
theorem taken_eq_written {calls : List (Call V T)} (hk : ∀ k ∈ calls, k.IsWriteOrRead) (n : Nat)
    {c : Channel (Nat × V) T} (l : Ledger (Nat × V) T) (h : Quiet c)
    (policy : c.inner.config.queuePolicy = .dropOldest) :
    (c.run l (number n calls)).2.taken = l.taken ++ written n calls := by
  induction calls generalizing n c l with
  | nil => simp [number, Channel.run, written]
  | cons k calls ih =>
    have rest : ∀ k ∈ calls, k.IsWriteOrRead := fun k hk' => hk k (mem_cons_of_mem _ hk')
    cases k with
    | write value ts =>
      have takes : c.Takes := ⟨h.poisoned, Or.inr policy⟩
      have quiet : Quiet (c.call (.write (n, value) ts)).1 := h.call trivial
      rw [number, Channel.run, ih rest (n + 1) _ quiet (by rw [Channel.call_config, policy]), written]
      simp [Ledger.after, takes]
    | read =>
      have quiet : Quiet (c.call .read).1 := h.call trivial
      exact ih rest n (l.after c .read) quiet (by rw [Channel.call_config, policy])
    | subscribe cb => exact (hk _ mem_cons_self).elim
    | dropReader => exact (hk _ mem_cons_self).elim

/-! ## The stream contract -/

/-- The numbered run of a list of calls on a new channel. -/
def numberedRun (config : StreamConfig) (calls : List (Call V T)) : Channel (Nat × V) T × Ledger (Nat × V) T :=
  (Channel.create config).run {} (number 0 calls)

/-- The entries written and not yet read or dropped. -/
def Ledger.live (l : Ledger (Nat × V) T) : List ((Nat × V) × T) :=
  l.taken.filter (fun e => serial e ∉ (l.returned ++ l.dropped).map serial)

/-- What a stream channel promises after a list of calls, `c` and `l` being its numbered state and books. -/
structure IsBoundedFifo (config : StreamConfig) (calls : List (Call V T)) (c : Channel (Nat × V) T)
    (l : Ledger (Nat × V) T) : Prop where
  /-- The numbers are not there for the code. -/
  state : Forgets c ((Channel.create config).run {} calls).1
  books : l.forget = ((Channel.create config).run {} calls).2
  bounded : c.inner.queue.length ≤ config.queueDepth
  /-- Entries are taken in write order and returned in that order, none of them twice. -/
  taken : l.taken.Sublist (written 0 calls)
  returned : l.returned.Sublist l.taken ∧ (l.returned.map serial).Pairwise (· < ·)
  dropOldest : config.queuePolicy = .dropOldest →
    c.inner.queue = lastOf (min config.queueDepth l.live.length) l.live ∧ l.Window config.queueDepth c.inner.queue
  others : config.queuePolicy ≠ .dropOldest → l.taken = l.returned ++ c.inner.queue
  /-- A read comes back with the oldest entry, if there is one. -/
  read : c.poisoned = false → c.read.2 = .read (.ok c.inner.queue.head?)
  /-- A write that finds room appends its entry. -/
  room : ¬ c.Full → c.poisoned = false → ∀ value ts,
    (c.write value ts).1.inner.queue = c.inner.queue ++ [(value, ts)]
  /-- A write that finds the queue full leaves it alone. -/
  backpressure : c.Full → c.poisoned = false → config.queuePolicy = .backpressure → ∀ value ts,
    c.write value ts = (c, .wrote (.error (.internal "stream backpressure timeout")))
  dropNewest : c.Full → c.poisoned = false → config.queuePolicy = .dropNewest → ∀ value ts,
    (c.write value ts).1.inner = c.inner ∧
      (c.inner.notifySubscribers value ts = .returns → c.write value ts = (c, .wrote (.ok ())))
  /-- Writes and reads alone neither poison the lock nor meet a subscriber. -/
  quiet : (∀ k ∈ calls, k.IsWriteOrRead) →
    Quiet c ∧ (config.queuePolicy = .dropOldest → l.taken = written 0 calls)

theorem Channel.write_room {c : Channel V T} (h : ¬ c.Full) (hp : c.poisoned = false) (value : V) (ts : T) :
    (c.write value ts).1.inner.queue = c.inner.queue ++ [(value, ts)] := by
  rw [write_inner hp, StreamChannelInner.push_room h, StreamChannelInner.pushBack]

theorem Channel.write_backpressure {c : Channel V T} (h : c.Full) (hp : c.poisoned = false)
    (policy : c.inner.config.queuePolicy = .backpressure) (value : V) (ts : T) :
    c.write value ts = (c, .wrote (.error (.internal "stream backpressure timeout"))) := by
  rw [write, if_neg (by simp [hp]), StreamChannelInner.push_full h, policy]

theorem Channel.write_dropNewest {c : Channel V T} (h : c.Full) (hp : c.poisoned = false)
    (policy : c.inner.config.queuePolicy = .dropNewest) (value : V) (ts : T) :
    (c.write value ts).1.inner = c.inner ∧
      (c.inner.notifySubscribers value ts = .returns → c.write value ts = (c, .wrote (.ok ()))) := by
  constructor
  · rw [write_inner hp, StreamChannelInner.push_full h, policy]
  · intro returns
    rw [write, if_neg (by simp [hp]), StreamChannelInner.push_full h, policy]
    simp only [returns]

/-- What is live is the queue: everything in front of it was returned or dropped, and numbers do not repeat. -/
theorem Ledger.Fifo.live {l : Ledger (Nat × V) T} {queue : List ((Nat × V) × T)} (h : l.Fifo queue)
    (distinct : (l.taken.map serial).Pairwise (· < ·)) : l.live = queue := by
  obtain ⟨gone, ht, _, _, hp⟩ := h.gone
  have mem : ∀ e : (Nat × V) × T, serial e ∈ (l.returned ++ l.dropped).map serial ↔ serial e ∈ gone.map serial :=
    fun e => (hp.map serial).mem_iff.symm
  rw [ht, map_append, pairwise_append] at distinct
  have front : gone.filter (fun e => decide (serial e ∉ gone.map serial)) = [] := by
    rw [filter_eq_nil_iff]
    intro e he
    simp only [decide_eq_true_eq, not_not]
    exact mem_map_of_mem he
  have back : queue.filter (fun e => decide (serial e ∉ gone.map serial)) = queue := by
    rw [filter_eq_self]
    intro e he
    have above : serial e ∉ gone.map serial := fun hc =>
      Nat.lt_irrefl _ (distinct.2.2 _ hc _ (mem_map_of_mem he))
    simpa using above
  simp only [Ledger.live, mem, ht, filter_append, front, back, nil_append]

/-- **Stream channels are bounded first-in first-out queues.** -/
theorem stream_isBoundedFifo (config : StreamConfig) (depth : 1 ≤ config.queueDepth) (calls : List (Call V T)) :
    IsBoundedFifo config calls (numberedRun config calls).1 (numberedRun config calls).2 := by
  have kept : Kept config (numberedRun config calls).1 (numberedRun config calls).2 :=
    (Kept.create config).run depth (number 0 calls)
  have same := Forgets.run calls 0 (l := {}) (c := Channel.create config) (d := Channel.create config)
    ⟨⟨rfl, rfl, rfl⟩, rfl⟩
  obtain ⟨more, ht, hs⟩ := run_taken calls 0 (Channel.create config) {}
  have taken : (numberedRun config calls).2.taken.Sublist (written 0 calls) := by
    rw [numberedRun, ht]
    exact hs
  have increasing := (written_increasing 0 calls).sublist (taken.map serial)
  obtain ⟨gone, split, returned, _, perm⟩ := kept.fifo.gone
  have early : (numberedRun config calls).2.returned.Sublist (numberedRun config calls).2.taken := by
    rw [split]
    exact returned.trans (sublist_append_left _ _)
  have live := kept.fifo.live increasing
  have policy := congrArg StreamConfig.queuePolicy kept.same
  exact {
    state := same.1
    books := same.2
    bounded := kept.bounded
    taken := taken
    returned := ⟨early, increasing.sublist (early.map serial)⟩
    dropOldest := by
      intro _
      refine ⟨?_, kept.window⟩
      rw [live, lastOf_of_le (Nat.le_min.2 ⟨kept.bounded, Nat.le_refl _⟩)]
    others := by
      intro hp
      -- nothing was dropped, so what is gone is what was returned
      rw [kept.dropped hp, List.append_nil] at perm
      rw [split, returned.eq_of_length perm.length_eq.symm]
    read := fun hp => by rw [Channel.read, if_neg (by simp [hp])]; rfl
    room := fun h hp => Channel.write_room h hp
    backpressure := fun h hp hb => Channel.write_backpressure h hp (policy.trans hb)
    dropNewest := fun h hp hb => Channel.write_dropNewest h hp (policy.trans hb)
    quiet := by
      intro hk
      have quiet := Quiet.run hk {} (c := Channel.create config) ⟨rfl, rfl⟩
      have numbered : Quiet (numberedRun config calls).1 :=
        ⟨same.1.poisoned.trans quiet.poisoned, by
          rw [numberedRun, same.1.inner.subscribers]
          exact map_eq_nil_iff.2 quiet.subscribers⟩
      exact ⟨numbered, fun hp => taken_eq_written hk 0 {} ⟨rfl, rfl⟩ hp⟩ }

/-- Three writes to a channel of depth two and a read: the first entry is lost, the second one read. -/
theorem stream_depth_two :
    1 ≤ (⟨2, .dropOldest⟩ : StreamConfig).queueDepth ∧
      IsBoundedFifo (V := Nat) (T := Nat) ⟨2, .dropOldest⟩ [.write 5 0, .write 6 1, .write 7 2, .read]
        (numberedRun ⟨2, .dropOldest⟩ [.write 5 0, .write 6 1, .write 7 2, .read]).1
        (numberedRun ⟨2, .dropOldest⟩ [.write 5 0, .write 6 1, .write 7 2, .read]).2 :=
  ⟨by decide, stream_isBoundedFifo _ (by decide) _⟩

end Audesys.Amw
