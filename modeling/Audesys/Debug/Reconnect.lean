import Audesys.Debug.Framing
import Audesys.Lib.Edits
import Mathlib.Data.List.Nodup

/-!
# `Debug.Reconnect` — one bridge, one adapter process after the other

`RealDapBridge` (`real-dap-bridge.ts`) spawns an adapter process with each connection and keeps one handle, one table of
pending requests, one sequence counter and one receive buffer for all of them. The handlers it puts on a process stay:
what an old process says or does after the next one is spawned is taken as the new one's.

A run is over calls, over events of any process that was spawned, in any order, and over the methods that go on when the
request they await is settled. `reconnect_clean` says under which conditions on the events the connections are kept
apart.
-/

namespace Audesys.Debug

open Audesys.Lib Audesys.Runtime.Ipc

variable {Body : Type}
variable {heard : List (Nat × List Nat)} {p : Nat}
variable {r : Pending}

/-! ## The bridge -/

/-- A response as far as the bridge reads it, with the body it passes on. -/
structure DapResponse (Body : Type) where
  requestSeq : Nat
  success : Bool
  message : Option String
  body : Option Body

/-- `DapFrame`; events of the adapter are ignored. -/
inductive DapFrame (Body : Type) where
  | response (r : DapResponse Body)
  | event

/-- A request that is sent, with the number of the process it was written to. -/
structure Pending where
  seq : Nat
  command : String
  process : Nat
deriving DecidableEq

/-- Where a method goes on when the request it awaits is resolved: `connect` behind `initialize` and behind `attach`,
`disconnect` behind its request. -/
inductive Continuation where
  | initialized
  | attached
  | disconnected
deriving DecidableEq

/-- What made the bridge settle a request. -/
inductive Cause (Body : Type) where
  | response (r : DapResponse Body)
  | writeError
  | exit (process : Nat)
  | error (process : Nat)

/-- A settled request: resolved with a response or rejected with a text; why, and the process that was held then. -/
structure Settlement (Body : Type) where
  seq : Nat
  outcome : Except String (DapResponse Body)
  cause : Cause Body
  held : Option Nat

/-- The fields of the bridge and the methods that wait; then its processes, numbered as they are spawned, those whose
standard input is destroyed, all requests that were sent, what was heard from which process, and what was settled. -/
structure RealDapBridge (Body : Type) where
  proc : Option Nat
  seq : Nat
  pending : List Pending
  buf : List Nat
  connected : Bool
  awaiting : List (Nat × Continuation)
  spawned : Nat
  destroyed : List Nat
  sent : List Pending
  heard : List (Nat × List Nat)
  settled : List (Settlement Body)

namespace RealDapBridge

def init : RealDapBridge Body := ⟨none, 1, [], [], false, [], 0, [], [], [], []⟩

/-- A promise is settled once: later calls of its `resolve` and `reject` do nothing. -/
def settle (b : RealDapBridge Body) (x : Settlement Body) : RealDapBridge Body :=
  if x.seq ∈ b.settled.map Settlement.seq then b else { b with settled := b.settled ++ [x] }

/-- `request`; without a process to write to it is rejected at once and not sent. -/
def request (b : RealDapBridge Body) (command : String) (continuation : Option Continuation) : RealDapBridge Body :=
  match b.proc with
  | none => b
  | some p =>
    if p ∈ b.destroyed then b
    else
      { b with
        seq := b.seq + 1
        pending := b.pending ++ [⟨b.seq, command, p⟩]
        sent := b.sent ++ [⟨b.seq, command, p⟩]
        awaiting := b.awaiting ++ continuation.toList.map fun k => (b.seq, k) }

/-- `kill`. -/
def kill (b : RealDapBridge Body) : RealDapBridge Body := { b with proc := none }

/-- `connect`, up to its first `await`. -/
def connect (b : RealDapBridge Body) : RealDapBridge Body :=
  if b.connected then b
  else request { b with proc := some b.spawned, spawned := b.spawned + 1 } "initialize" (some .initialized)

/-- `disconnect`, up to its `await`. -/
def disconnect (b : RealDapBridge Body) : RealDapBridge Body :=
  if b.connected then b.request "disconnect" (some .disconnected) else b.kill

/-- What follows an `await`. -/
def goOn (b : RealDapBridge Body) : Continuation → RealDapBridge Body
  | .initialized => b.request "attach" (some .attached)
  | .attached => { b with connected := true }
  | .disconnected => kill { b with connected := false }

/-- The method that awaits request `seq` goes on, if the request is settled; it throws, if it was rejected. -/
def resume (b : RealDapBridge Body) (seq : Nat) : RealDapBridge Body :=
  match b.awaiting.find? (·.1 == seq), b.settled.find? (·.seq == seq) with
  | some (_, k), some x =>
    match x.outcome with
    | .ok _ => goOn { b with awaiting := b.awaiting.eraseP (·.1 == seq) } k
    | .error _ => { b with awaiting := b.awaiting.eraseP (·.1 == seq) }
  | _, _ => b

/-- The text of a failure response. -/
def failure (r : Pending) (f : DapResponse Body) : String := r.command ++ ": " ++ f.message.getD "DAP error"

/-- `onFrame`. -/
def onFrame (b : RealDapBridge Body) : DapFrame Body → RealDapBridge Body
  | .event => b
  | .response f =>
    match b.pending.find? (·.seq == f.requestSeq) with
    | none => b
    | some r =>
      settle { b with pending := b.pending.filter (·.seq != f.requestSeq) }
        ⟨r.seq, if f.success then .ok f else .error (failure r f), .response f, b.proc⟩

/-- `onData`. -/
def onData (parse : List Nat → Option (DapFrame Body)) (b : RealDapBridge Body) (process : Nat) (chunk : List UInt8) :
    RealDapBridge Body :=
  let text := utf16 (utf8Lossy chunk)
  (decodeFrames parse (b.buf ++ text)).1.foldl onFrame
    { b with buf := (decodeFrames parse (b.buf ++ text)).2, heard := b.heard ++ [(process, text)] }

/-- `rejectAll`. -/
def rejectAll (b : RealDapBridge Body) (reason : String) (cause : Cause Body) : RealDapBridge Body :=
  b.pending.foldl (fun c r => c.settle ⟨r.seq, .error reason, cause, b.proc⟩) { b with pending := [] }

/-- `onExit`. -/
def onExit (b : RealDapBridge Body) (process : Nat) : RealDapBridge Body :=
  { b.rejectAll "dap-adapter process exited" (.exit process) with connected := false, proc := none }

/-- The callback of the write of request `seq`, with an error. -/
def onWriteError (b : RealDapBridge Body) (seq : Nat) (err : String) : RealDapBridge Body :=
  match b.sent.find? (·.seq == seq) with
  | none => b
  | some r =>
    settle { b with pending := b.pending.filter (·.seq != seq) } ⟨r.seq, .error err, .writeError, b.proc⟩

end RealDapBridge

/-! ## Runs -/

/-- What happens to the bridge. `request` stands for the methods that only wait for a response, by their command. A
process may be heard after its exit, and it may exit late. -/
inductive BridgeEvent where
  | connect
  | disconnect
  | request (command : String)
  | resume (seq : Nat)
  | data (process : Nat) (chunk : List UInt8)
  | writeError (seq : Nat) (err : String)
  | stdinDestroyed (process : Nat)
  | exit (process : Nat)
  | error (process : Nat) (err : String)

namespace RealDapBridge

variable (parse : List Nat → Option (DapFrame Body))

def step (b : RealDapBridge Body) : BridgeEvent → RealDapBridge Body
  | .connect => b.connect
  | .disconnect => b.disconnect
  | .request command => b.request command none
  | .resume seq => b.resume seq
  | .data process chunk => b.onData parse process chunk
  | .writeError seq err => b.onWriteError seq err
  | .stdinDestroyed process => { b with destroyed := b.destroyed ++ [process] }
  | .exit process => b.onExit process
  | .error process err => b.rejectAll err (.error process)

/-- The process an event is of. -/
def source (b : RealDapBridge Body) : BridgeEvent → Option Nat
  | .data process _ => some process
  | .writeError seq _ => (b.sent.find? (·.seq == seq)).map Pending.process
  | .stdinDestroyed process => some process
  | .exit process => some process
  | .error process _ => some process
  | _ => none

/-- Only processes that were spawned have events. -/
def Spawned (b : RealDapBridge Body) (e : BridgeEvent) : Prop := ∀ p ∈ b.source e, p < b.spawned

instance (b : RealDapBridge Body) (e : BridgeEvent) : Decidable (b.Spawned e) :=
  inferInstanceAs (Decidable (∀ p ∈ b.source e, _))

/-- All text of a process so far. -/
def output (heard : List (Nat × List Nat)) (p : Nat) : List Nat :=
  (heard.filter fun item => item.1 == p).flatMap Prod.snd

/-- The frames a process has sent. -/
def framesOf (heard : List (Nat × List Nat)) (p : Nat) : List (DapFrame Body) := (decodeFrames parse (output heard p)).1

/-- A settlement that has its reason: a response with the request's own `seq` that the process held then has sent, a
write error, or the end of the process the request was sent to. -/
structure Lawful (heard : List (Nat × List Nat)) (r : Pending) (x : Settlement Body) : Prop where
  resolved : ∀ f, x.outcome = .ok f →
    f.requestSeq = r.seq ∧ ∃ p, x.held = some p ∧ .response f ∈ framesOf parse heard p
  rejected : ∀ reason, x.outcome = .error reason →
    (∃ f, x.cause = .response f ∧ f.success = false ∧ f.requestSeq = r.seq ∧
      ∃ p, x.held = some p ∧ .response f ∈ framesOf parse heard p) ∨
    x.cause = .writeError ∨ x.cause = .exit r.process ∨ x.cause = .error r.process

/-- **A clean bridge**: requests have numbers of their own and are settled at most once, each for a lawful reason. -/
structure Clean (b : RealDapBridge Body) : Prop where
  numbered : (b.sent.map Pending.seq).Nodup
  once : (b.settled.map Settlement.seq).Nodup
  lawful : ∀ r ∈ b.sent, ∀ x ∈ b.settled, x.seq = r.seq → Lawful parse b.heard r x

/-- An event of a process leaves later ones alone: their requests stay pending, and where the bridge holds one of them
it keeps it and the text it has of it. -/
def Undisturbed (b : RealDapBridge Body) (e : BridgeEvent) : Prop :=
  ∀ p, b.source e = some p →
    (∀ r ∈ b.pending, p < r.process → r ∈ (b.step parse e).pending) ∧
      ∀ q, b.proc = some q → p < q → (b.step parse e).proc = some q ∧ (b.step parse e).buf = b.buf

/-- The conditions that keep the connections apart. A process is spawned when no text is left of the ones before; only
the process that is held is heard, or one that finds nothing to settle; and at the end of a process no requests of other
ones are pending, and no other one is held. -/
def Quiet (b : RealDapBridge Body) : BridgeEvent → Prop
  | .connect => b.connected = true ∨ b.buf = []
  | .data p _ => b.proc = some p ∨ b.proc = none ∧ b.pending = []
  | .exit p => (∀ r ∈ b.pending, r.process = p) ∧ (b.proc = none ∨ b.proc = some p)
  | .error p _ => ∀ r ∈ b.pending, r.process = p
  | _ => True

instance (b : RealDapBridge Body) (e : BridgeEvent) : Decidable (b.Quiet e) := by
  cases e <;> unfold Quiet <;> infer_instance

/-! ## Frames of a process -/

variable {parse}

theorem output_snoc (heard : List (Nat × List Nat)) (p q : Nat) (text : List Nat) :
    output (heard ++ [(q, text)]) p = output heard p ++ if q = p then text else [] := by
  unfold output
  rw [List.filter_append, List.flatMap_append]
  by_cases h : q = p
  · have hkeep : [(q, text)].filter (fun item => item.1 == p) = [(q, text)] := List.filter_cons_of_pos (beq_iff_eq.2 h)
    rw [if_pos h, hkeep, List.flatMap_singleton]
  · have hdrop : [(q, text)].filter (fun item => item.1 == p) = [] := List.filter_cons_of_neg (mt beq_iff_eq.1 h)
    rw [if_neg h, hdrop, List.flatMap_nil]

/-- Nothing is heard of a process before it is spawned. -/
theorem output_fresh (h : ∀ item ∈ heard, item.1 < p) : output heard p = [] := by
  have hnone : (heard.filter fun item => item.1 == p) = [] := by
    rw [List.filter_eq_nil_iff]
    intro item hitem heq
    exact absurd (beq_iff_eq.1 heq) (Nat.ne_of_lt (h item hitem))
  unfold output
  rw [hnone]
  rfl

theorem decodeFrames_append (s t : List Nat) :
    decodeFrames parse (s ++ t) = ((decodeFrames parse s).1 ++ (decodeFrames parse ((decodeFrames parse s).2 ++ t)).1,
      (decodeFrames parse ((decodeFrames parse s).2 ++ t)).2) := Scanner.decode_append s t

/-- What a process has sent stays sent. -/
theorem framesOf_mono {f : DapFrame Body} (h : f ∈ framesOf parse heard p)
    (item : Nat × List Nat) : f ∈ framesOf parse (heard ++ [item]) p := by
  unfold framesOf
  rw [output_snoc, decodeFrames_append]
  exact List.mem_append_left _ h

theorem Lawful.mono {x : Settlement Body} (h : Lawful parse heard r x)
    (item : Nat × List Nat) : Lawful parse (heard ++ [item]) r x := by
  refine ⟨?_, ?_⟩
  · intro f hf
    obtain ⟨hseq, p, hheld, hframe⟩ := h.resolved f hf
    exact ⟨hseq, p, hheld, framesOf_mono hframe item⟩
  · intro reason hreason
    rcases h.rejected reason hreason with ⟨f, hcause, hfailure, hseq, p, hheld, hframe⟩ | hother
    · exact Or.inl ⟨f, hcause, hfailure, hseq, p, hheld, framesOf_mono hframe item⟩
    · exact Or.inr hother

/-- A response with the request's number is a reason, be it success or failure. -/
theorem lawful_response {f : DapResponse Body}
    (hseq : r.seq = f.requestSeq) (hf : .response f ∈ framesOf parse heard p) :
    Lawful parse heard r ⟨r.seq, if f.success then .ok f else .error (failure r f), .response f, some p⟩ := by
  by_cases hsuccess : f.success = true
  · rw [if_pos hsuccess]
    refine ⟨?_, fun _ hreason => (by cases hreason)⟩
    intro g hg
    cases hg
    exact ⟨hseq.symm, p, rfl, hf⟩
  · rw [if_neg hsuccess]
    refine ⟨fun _ hg => (by cases hg), ?_⟩
    intro _ _
    exact Or.inl ⟨f, rfl, Bool.eq_false_iff.2 hsuccess, hseq.symm, p, rfl, hf⟩

/-! ## The invariant -/

/-- What holds at all times where the connections are kept apart: the process that is held is the last one, and the
buffer is what is left of its own text. -/
structure Inv (parse : List Nat → Option (DapFrame Body)) (b : RealDapBridge Body) : Prop where
  numbered : (b.sent.map Pending.seq).Nodup
  once : (b.settled.map Settlement.seq).Nodup
  lawful : ∀ r ∈ b.sent, ∀ x ∈ b.settled, x.seq = r.seq → Lawful parse b.heard r x
  last : ∀ p, b.proc = some p → p + 1 = b.spawned
  buffered : ∀ p, b.proc = some p → (decodeFrames parse (output b.heard p)).2 = b.buf
  heard : ∀ item ∈ b.heard, item.1 < b.spawned
  written : ∀ r ∈ b.sent, r.seq < b.seq ∧ r.process < b.spawned
  pending : ∀ r ∈ b.pending, r ∈ b.sent
  waiting : ∀ r ∈ b.pending, ∀ x ∈ b.settled, x.seq ≠ r.seq
  known : ∀ x ∈ b.settled, x.seq < b.seq

theorem inv_init : Inv parse (init : RealDapBridge Body) where
  numbered := List.nodup_nil
  once := List.nodup_nil
  lawful _ h := absurd h List.not_mem_nil
  last _ h := by cases h
  buffered _ h := by cases h
  heard _ h := absurd h List.not_mem_nil
  written _ h := absurd h List.not_mem_nil
  pending _ h := absurd h List.not_mem_nil
  waiting _ h := absurd h List.not_mem_nil
  known _ h := absurd h List.not_mem_nil

variable {b : RealDapBridge Body}

theorem Inv.clean (h : Inv parse b) : Clean parse b := ⟨h.numbered, h.once, h.lawful⟩

/-- A number stands for one request. -/
theorem Inv.eq_of_seq (h : Inv parse b) {r q : Pending} (hr : r ∈ b.sent) (hq : q ∈ b.sent) (heq : r.seq = q.seq) :
    r = q := List.inj_on_of_nodup_map h.numbered hr hq heq

/-- Requests leave the table. -/
theorem Inv.filter (h : Inv parse b) (p : Pending → Bool) : Inv parse { b with pending := b.pending.filter p } :=
  { h with
    pending := fun r hr => h.pending r (List.mem_of_mem_filter hr)
    waiting := fun r hr => h.waiting r (List.mem_of_mem_filter hr) }

/-- A request that has left the table is settled for a reason. -/
theorem Inv.settle (h : Inv parse b) {x : Settlement Body} (hr : r ∈ b.sent) (hseq : x.seq = r.seq)
    (hpending : ∀ q ∈ b.pending, q.seq ≠ r.seq) (hlawful : Lawful parse b.heard r x) : Inv parse (b.settle x) := by
  unfold RealDapBridge.settle
  by_cases hmem : x.seq ∈ b.settled.map Settlement.seq
  · rw [if_pos hmem]
    exact h
  · rw [if_neg hmem]
    refine { h with once := ?_, lawful := ?_, waiting := ?_, known := ?_ }
    · show ((b.settled ++ [x]).map Settlement.seq).Nodup
      rw [List.map_append, List.map_singleton, ← List.concat_eq_append]
      exact List.Nodup.concat hmem h.once
    · intro q hq y hy heq
      rcases List.mem_append.1 hy with hy | hy
      · exact h.lawful q hq y hy heq
      · cases List.mem_singleton.1 hy
        cases h.eq_of_seq hq hr (heq.symm.trans hseq)
        exact hlawful
    · intro q hq y hy
      rcases List.mem_append.1 hy with hy | hy
      · exact h.waiting q hq y hy
      · rw [List.mem_singleton.1 hy, hseq]
        exact (hpending q hq).symm
    · intro y hy
      rcases List.mem_append.1 hy with hy | hy
      · exact h.known y hy
      · rw [List.mem_singleton.1 hy, hseq]
        exact (h.written r hr).1

@[simp] theorem settle_proc (x : Settlement Body) : (b.settle x).proc = b.proc := by
  unfold RealDapBridge.settle
  split <;> rfl

@[simp] theorem settle_buf (x : Settlement Body) : (b.settle x).buf = b.buf := by
  unfold RealDapBridge.settle
  split <;> rfl

@[simp] theorem settle_pending (x : Settlement Body) : (b.settle x).pending = b.pending := by
  unfold RealDapBridge.settle
  split <;> rfl

@[simp] theorem settle_heard (x : Settlement Body) : (b.settle x).heard = b.heard := by
  unfold RealDapBridge.settle
  split <;> rfl

@[simp] theorem settle_sent (x : Settlement Body) : (b.settle x).sent = b.sent := by
  unfold RealDapBridge.settle
  split <;> rfl

/-! ## What each step keeps -/

theorem Inv.request (h : Inv parse b) (command : String) (k : Option Continuation) :
    Inv parse (b.request command k) := by
  unfold RealDapBridge.request
  cases hproc : b.proc with
  | none => exact h
  | some p =>
    dsimp only
    by_cases hdestroyed : p ∈ b.destroyed
    · rw [if_pos hdestroyed]
      exact h
    · rw [if_neg hdestroyed]
      have hlast := h.last p hproc
      have hnew : ∀ r ∈ b.sent, r.seq ≠ b.seq := fun r hr => Nat.ne_of_lt (h.written r hr).1
      refine { h with numbered := ?_, lawful := ?_, last := ?_, buffered := ?_, written := ?_, pending := ?_,
                      waiting := ?_, known := ?_ }
      · show ((b.sent ++ [_]).map Pending.seq).Nodup
        rw [List.map_append, List.map_singleton, ← List.concat_eq_append]
        apply List.Nodup.concat _ h.numbered
        intro hmem
        obtain ⟨r, hr, heq⟩ := List.mem_map.1 hmem
        exact hnew r hr heq
      · intro r hr x hx heq
        rcases List.mem_append.1 hr with hr | hr
        · exact h.lawful r hr x hx heq
        · -- nothing is settled under the new number
          cases List.mem_singleton.1 hr
          exact absurd heq (Nat.ne_of_lt (h.known x hx))
      · exact fun q hq => h.last q (hproc.trans hq)
      · exact fun q hq => h.buffered q (hproc.trans hq)
      · intro r hr
        rcases List.mem_append.1 hr with hr | hr
        · have hr := h.written r hr
          exact ⟨Nat.lt_succ_of_lt hr.1, hr.2⟩
        · cases List.mem_singleton.1 hr
          exact ⟨Nat.lt_succ_self _, hlast ▸ Nat.lt_succ_self p⟩
      · intro r hr
        rcases List.mem_append.1 hr with hr | hr
        · exact List.mem_append_left _ (h.pending r hr)
        · exact List.mem_append_right _ hr
      · intro r hr x hx
        rcases List.mem_append.1 hr with hr | hr
        · exact h.waiting r hr x hx
        · cases List.mem_singleton.1 hr
          exact Nat.ne_of_lt (h.known x hx)
      · exact fun x hx => Nat.lt_succ_of_lt (h.known x hx)

theorem Inv.kill (h : Inv parse b) : Inv parse b.kill :=
  { h with last := fun _ hp => (by cases hp), buffered := fun _ hp => (by cases hp) }

theorem Inv.connect (h : Inv parse b) (hquiet : b.connected = true ∨ b.buf = []) : Inv parse b.connect := by
  unfold RealDapBridge.connect
  by_cases hconnected : b.connected = true
  · rw [if_pos hconnected]
    exact h
  · rw [if_neg hconnected]
    apply Inv.request
    -- nothing was heard of the new process, and nothing is left in the buffer
    have hbuf := hquiet.resolve_left hconnected
    refine { h with last := ?_, buffered := ?_, heard := ?_, written := ?_ }
    · intro p hp
      rw [← Option.some.inj hp]
    · intro p hp
      cases hp
      show (decodeFrames parse (output b.heard b.spawned)).2 = b.buf
      rw [output_fresh h.heard, hbuf]
      rfl
    · exact fun item hitem => Nat.lt_succ_of_lt (h.heard item hitem)
    · intro r hr
      have hr := h.written r hr
      exact ⟨hr.1, Nat.lt_succ_of_lt hr.2⟩

theorem Inv.goOn (h : Inv parse b) (k : Continuation) : Inv parse (b.goOn k) := by
  cases k with
  | initialized => exact h.request _ _
  | attached => exact { h with }
  | disconnected => exact Inv.kill { h with }

theorem Inv.resume (h : Inv parse b) (seq : Nat) : Inv parse (b.resume seq) := by
  unfold RealDapBridge.resume
  cases b.awaiting.find? (·.1 == seq) with
  | none => exact h
  | some item =>
    cases b.settled.find? (·.seq == seq) with
    | none => exact h
    | some x =>
      dsimp only
      have hnext : Inv parse { b with awaiting := b.awaiting.eraseP (·.1 == seq) } := { h with }
      cases x.outcome with
      | ok f => exact hnext.goOn item.2
      | error reason => exact hnext

/-- A response that the held process has sent. -/
theorem Inv.onFrame (h : Inv parse b) (hproc : b.proc = some p) {f : DapFrame Body}
    (hf : f ∈ framesOf parse b.heard p) : Inv parse (b.onFrame f) := by
  cases f with
  | event => exact h
  | response f =>
    unfold RealDapBridge.onFrame
    dsimp only
    cases hfind : b.pending.find? (·.seq == f.requestSeq) with
    | none => exact h
    | some r =>
      have hfound := List.find?_some hfind
      have hseq : r.seq = f.requestSeq := beq_iff_eq.1 hfound
      apply (h.filter _).settle (h.pending r (List.mem_of_find?_eq_some hfind)) rfl
      · intro q hq heq
        have hne := (List.mem_filter.1 hq).2
        rw [heq, hseq, bne_self_eq_false] at hne
        cases hne
      · rw [hproc]
        exact lawful_response hseq hf

theorem onFrame_proc (f : DapFrame Body) : (b.onFrame f).proc = b.proc := by
  cases f with
  | event => rfl
  | response f =>
    unfold RealDapBridge.onFrame
    dsimp only
    split
    · rfl
    · rw [settle_proc]

theorem onFrame_heard (f : DapFrame Body) : (b.onFrame f).heard = b.heard := by
  cases f with
  | event => rfl
  | response f =>
    unfold RealDapBridge.onFrame
    dsimp only
    split
    · rfl
    · rw [settle_heard]

theorem Inv.foldl_onFrame (h : Inv parse b) (hproc : b.proc = some p) {fs : List (DapFrame Body)}
    (hfs : ∀ f ∈ fs, f ∈ framesOf parse b.heard p) : Inv parse (fs.foldl RealDapBridge.onFrame b) := by
  induction fs generalizing b with
  | nil => exact h
  | cons f fs ih =>
    apply ih (h.onFrame hproc (hfs f (List.mem_cons_self ..)))
    · rw [onFrame_proc, hproc]
    · intro g hg
      rw [onFrame_heard]
      exact hfs g (List.mem_cons_of_mem _ hg)

/-- Frames make no difference where nothing is pending. -/
theorem foldl_onFrame_idle (hpending : b.pending = []) (fs : List (DapFrame Body)) :
    fs.foldl RealDapBridge.onFrame b = b := by
  induction fs with
  | nil => rfl
  | cons f fs ih =>
    have hf : b.onFrame f = b := by
      cases f with
      | event => rfl
      | response f =>
        unfold RealDapBridge.onFrame
        rw [hpending]
        rfl
    rw [List.foldl_cons, hf, ih]

theorem Inv.onData (h : Inv parse b) (hp : p < b.spawned) (chunk : List UInt8)
    (hquiet : b.proc = some p ∨ b.proc = none ∧ b.pending = []) : Inv parse (b.onData parse p chunk) := by
  unfold RealDapBridge.onData
  dsimp only
  have hheard : ∀ item ∈ b.heard ++ [(p, utf16 (utf8Lossy chunk))], item.1 < b.spawned := by
    intro item hitem
    rcases List.mem_append.1 hitem with hitem | hitem
    · exact h.heard item hitem
    · rw [List.mem_singleton.1 hitem]
      exact hp
  have hlawful : ∀ r ∈ b.sent, ∀ x ∈ b.settled, x.seq = r.seq →
      Lawful parse (b.heard ++ [(p, utf16 (utf8Lossy chunk))]) r x :=
    fun r hr x hx heq => (h.lawful r hr x hx heq).mono _
  rcases hquiet with hproc | ⟨hnone, hpending⟩
  · -- the text goes behind the process's own
    have hout : output (b.heard ++ [(p, utf16 (utf8Lossy chunk))]) p = output b.heard p ++ utf16 (utf8Lossy chunk) := by
      rw [output_snoc, if_pos rfl]
    have hdecode := @decodeFrames_append _ parse (output b.heard p) (utf16 (utf8Lossy chunk))
    rw [h.buffered p hproc] at hdecode
    have hnext : Inv parse { b with
        buf := (decodeFrames parse (b.buf ++ utf16 (utf8Lossy chunk))).2
        heard := b.heard ++ [(p, utf16 (utf8Lossy chunk))] } := by
      refine { h with lawful := hlawful, buffered := ?_, heard := hheard }
      intro q hq
      -- what is left of the process's whole text is what is left behind the buffer with the chunk
      cases hproc.symm.trans hq
      show (decodeFrames parse (output (b.heard ++ [(p, utf16 (utf8Lossy chunk))]) p)).2 = _
      rw [hout, hdecode]
    apply hnext.foldl_onFrame hproc
    intro f hf
    show f ∈ (decodeFrames parse (output (b.heard ++ [(p, utf16 (utf8Lossy chunk))]) p)).1
    rw [hout, hdecode]
    exact List.mem_append_right _ hf
  · -- nothing is held, and nothing is pending
    rw [foldl_onFrame_idle (by exact hpending)]
    refine { h with lawful := hlawful, buffered := ?_, heard := hheard }
    intro q hq
    cases hnone.symm.trans hq

/-- Requests that have left the table are rejected together. -/
theorem Inv.foldl_settle (h : Inv parse b) {rs : List Pending} {reason : String} {cause : Cause Body}
    {held : Option Nat} (hrs : ∀ r ∈ rs, r ∈ b.sent) (hpending : b.pending = [])
    (hlawful : ∀ r ∈ rs, Lawful parse b.heard r ⟨r.seq, .error reason, cause, held⟩) :
    Inv parse (rs.foldl (fun c r => c.settle ⟨r.seq, .error reason, cause, held⟩) b) := by
  induction rs generalizing b with
  | nil => exact h
  | cons r rs ih =>
    have hnone : ∀ q ∈ b.pending, q.seq ≠ r.seq := by
      rw [hpending]
      exact fun q hq => absurd hq List.not_mem_nil
    apply ih (h.settle (hrs r (List.mem_cons_self ..)) rfl hnone (hlawful r (List.mem_cons_self ..)))
    · intro q hq
      rw [settle_sent]
      exact hrs q (List.mem_cons_of_mem _ hq)
    · rw [settle_pending, hpending]
    · intro q hq
      rw [settle_heard]
      exact hlawful q (List.mem_cons_of_mem _ hq)

/-- All pending requests were sent to the process that has ended. -/
theorem Inv.rejectAll (h : Inv parse b) (hall : ∀ r ∈ b.pending, r.process = p) {cause : Cause Body}
    (hcause : cause = .exit p ∨ cause = .error p) (reason : String) : Inv parse (b.rejectAll reason cause) := by
  unfold RealDapBridge.rejectAll
  have hempty : Inv parse { b with pending := [] } := by
    have hfilter := h.filter fun _ => false
    rwa [List.filter_false] at hfilter
  apply hempty.foldl_settle h.pending rfl
  intro r hr
  refine ⟨fun f hf => (by cases hf), ?_⟩
  -- the reason is the end of the request's own process
  intro _ _
  rw [hall r hr]
  rcases hcause with rfl | rfl
  · exact Or.inr (Or.inr (Or.inl rfl))
  · exact Or.inr (Or.inr (Or.inr rfl))

theorem Inv.onExit (h : Inv parse b) (hall : ∀ r ∈ b.pending, r.process = p) : Inv parse (b.onExit p) := by
  have hreject := h.rejectAll hall (Or.inl rfl) "dap-adapter process exited"
  exact { hreject with last := fun _ hp => (by cases hp), buffered := fun _ hp => (by cases hp) }

theorem Inv.onWriteError (h : Inv parse b) (seq : Nat) (err : String) : Inv parse (b.onWriteError seq err) := by
  unfold RealDapBridge.onWriteError
  cases hfind : b.sent.find? (·.seq == seq) with
  | none => exact h
  | some r =>
    have hfound := List.find?_some hfind
    have hseq : r.seq = seq := beq_iff_eq.1 hfound
    apply (h.filter _).settle (List.mem_of_find?_eq_some hfind) rfl
    · intro q hq heq
      have hne := (List.mem_filter.1 hq).2
      rw [heq, hseq, bne_self_eq_false] at hne
      cases hne
    · exact ⟨fun f hf => (by cases hf), fun _ _ => Or.inr (Or.inl rfl)⟩

/-- A step that meets the conditions keeps the invariant. -/
theorem Inv.step (h : Inv parse b) {e : BridgeEvent} (he : b.Spawned e) (hquiet : b.Quiet e) :
    Inv parse (b.step parse e) := by
  cases e with
  | connect => exact h.connect hquiet
  | disconnect =>
    unfold RealDapBridge.step RealDapBridge.disconnect
    by_cases hconnected : b.connected = true
    · rw [if_pos hconnected]
      exact h.request _ _
    · rw [if_neg hconnected]
      exact h.kill
  | request command => exact h.request command none
  | resume seq => exact h.resume seq
  | data p chunk => exact h.onData (he p rfl) chunk hquiet
  | writeError seq err => exact h.onWriteError seq err
  | stdinDestroyed p => exact { h with }
  | exit p => exact h.onExit hquiet.1
  | error p err => exact h.rejectAll hquiet (Or.inr rfl) err

/-! ## What each step leaves alone -/

section
variable {rs : List Pending} {reason : String} {cause : Cause Body} {held : Option Nat}

theorem foldl_settle_kept {α : Type} {g : RealDapBridge Body → α}
    (hg : ∀ (b : RealDapBridge Body) x, g (b.settle x) = g b) (rs : List Pending) (b : RealDapBridge Body) :
    g (rs.foldl (fun c r => c.settle ⟨r.seq, .error reason, cause, held⟩) b) = g b := by
  induction rs generalizing b with
  | nil => rfl
  | cons r rs ih => rw [List.foldl_cons, ih, hg]

theorem rejectAll_proc : (b.rejectAll reason cause).proc = b.proc :=
  foldl_settle_kept (fun _ x => settle_proc x) b.pending { b with pending := [] }

theorem rejectAll_buf : (b.rejectAll reason cause).buf = b.buf :=
  foldl_settle_kept (fun _ x => settle_buf x) b.pending { b with pending := [] }

end

/-- The last process has no later ones. -/
theorem Inv.not_later (h : Inv parse b) (hproc : b.proc = some p) (hr : r ∈ b.pending) : ¬ p < r.process := by
  have hlast := h.last p hproc
  have hr := (h.written r (h.pending r hr)).2
  omega

/-- A step that meets the conditions leaves later processes alone. -/
theorem Inv.undisturbed (h : Inv parse b) {e : BridgeEvent} (hquiet : b.Quiet e) : Undisturbed parse b e := by
  intro p hp
  cases e with
  | connect => cases hp
  | disconnect => cases hp
  | request command => cases hp
  | resume seq => cases hp
  | data p' chunk =>
    cases hp
    rcases hquiet with hproc | ⟨hnone, hpending⟩
    · refine ⟨fun r hr hlt => absurd hlt (h.not_later hproc hr), ?_⟩
      intro q hq hlt
      cases hproc.symm.trans hq
      exact absurd hlt (Nat.lt_irrefl _)
    · refine ⟨?_, fun q hq => (by cases hnone.symm.trans hq)⟩
      rw [hpending]
      exact fun r hr => absurd hr List.not_mem_nil
  | writeError seq err =>
    obtain ⟨r', hfind, rfl⟩ := Option.map_eq_some_iff.1 hp
    have hstep : b.step parse (.writeError seq err) =
        RealDapBridge.settle { b with pending := b.pending.filter (·.seq != seq) }
          ⟨r'.seq, .error err, .writeError, b.proc⟩ := by
      unfold RealDapBridge.step RealDapBridge.onWriteError
      dsimp only
      rw [hfind]
    rw [hstep, settle_pending, settle_proc, settle_buf]
    refine ⟨?_, fun q hq _ => ⟨hq, rfl⟩⟩
    intro r hr hlt
    -- the one request that leaves the table was sent to the process itself
    apply List.mem_filter.2
    refine ⟨hr, ?_⟩
    rw [bne_iff_ne]
    intro hseq
    have hfound := List.find?_some hfind
    have hsame := h.eq_of_seq (h.pending r hr) (List.mem_of_find?_eq_some hfind) (hseq.trans (beq_iff_eq.1 hfound).symm)
    rw [hsame] at hlt
    exact Nat.lt_irrefl _ hlt
  | stdinDestroyed p' => exact ⟨fun r hr _ => hr, fun q hq _ => ⟨hq, rfl⟩⟩
  | exit p' =>
    cases hp
    refine ⟨fun r hr hlt => absurd (hquiet.1 r hr) (Nat.ne_of_gt hlt), ?_⟩
    intro q hq hlt
    rcases hquiet.2 with hproc | hproc
    · cases hproc.symm.trans hq
    · cases hproc.symm.trans hq
      exact absurd hlt (Nat.lt_irrefl _)
  | error p' err =>
    cases hp
    refine ⟨fun r hr hlt => absurd (hquiet r hr) (Nat.ne_of_gt hlt), ?_⟩
    intro q hq _
    exact ⟨rejectAll_proc.trans hq, rejectAll_buf⟩

/-! ## Whole runs -/

/-- **Reconnecting is clean** in every run whose steps meet the conditions: every request is settled at most once and
for a lawful reason, and no process disturbs a later one. -/
theorem reconnect_clean (parse : List Nat → Option (DapFrame Body)) {events : List BridgeEvent}
    (hspawned : EveryStep (step parse) Spawned init events) (hquiet : EveryStep (step parse) Quiet init events) :
    Always (step parse) (Clean parse) init events ∧ EveryStep (step parse) (Undisturbed parse) init events := by
  have hboth : EveryStep (step parse) (fun b e => b.Spawned e ∧ b.Quiet e) init events :=
    fun pre e hpre => ⟨hspawned pre e hpre, hquiet pre e hpre⟩
  have hkeep : ∀ b e, Inv parse b → b.Spawned e ∧ b.Quiet e → Inv parse (b.step parse e) :=
    fun b e h he => h.step he.1 he.2
  have hinv : Always (step parse) (Inv parse) init events := hboth.always hkeep inv_init
  refine ⟨?_, ?_⟩
  · exact fun pre hpre => (hinv pre hpre).clean
  · intro pre e hpre
    exact (hinv pre ((List.prefix_append pre [e]).trans hpre)).undisturbed (hquiet pre e hpre)

/-- The response to the first request. -/
def initializeResponse : List Char := "\x7b\"type\":\"response\",\"request_seq\":1,\"success\":true\x7d".toList

def parseInitialize (s : List Nat) : Option (DapFrame Unit) :=
  if s = utf16 initializeResponse then some (.response ⟨1, true, none, none⟩) else none

/-- A connection is given up while it attaches, and the next one is made when its process has exited. -/
def inOrder : List BridgeEvent :=
  [.connect, .data 0 (utf8 (sendPacket initializeResponse)), .resume 1, .disconnect, .exit 0, .connect]

theorem reconnect_clean_inOrder : Always (step parseInitialize) (Clean parseInitialize) init inOrder ∧
    EveryStep (step parseInitialize) (Undisturbed parseInitialize) init inOrder := by
  apply reconnect_clean
  · unfold inOrder
    simp only [everyStep_cons]
    exact ⟨by decide, by decide +kernel, by decide +kernel, by decide +kernel, by decide +kernel, by decide +kernel,
      everyStep_nil⟩
  · unfold inOrder
    simp only [everyStep_cons]
    exact ⟨by decide, by decide +kernel, by decide +kernel, by decide +kernel, by decide +kernel, by decide +kernel,
      everyStep_nil⟩

/-- A connection is given up at once, and its process exits after the next one is spawned: the new process has its
request rejected. -/
theorem reconnect_fails : ¬ ∀ (parse : List Nat → Option (DapFrame Unit)) (events : List BridgeEvent),
    EveryStep (step parse) Spawned init events →
      Always (step parse) (Clean parse) init events ∧ EveryStep (step parse) (Undisturbed parse) init events := by
  intro h
  have hspawned : EveryStep (step fun _ => none) Spawned (init : RealDapBridge Unit)
      [.connect, .disconnect, .connect, .exit 0] := by
    simp only [everyStep_cons]
    exact ⟨by decide, by decide, by decide, by decide, everyStep_nil⟩
  have hclean := (h (fun _ => none) [.connect, .disconnect, .connect, .exit 0] hspawned).1 _ (List.prefix_refl _)
  have hsent : (⟨2, "initialize", 1⟩ : Pending) ∈ [⟨1, "initialize", 0⟩, ⟨2, "initialize", 1⟩] := by decide
  have hsettled : (⟨2, .error "dap-adapter process exited", .exit 0, some 1⟩ : Settlement Unit) ∈
      [⟨1, .error "dap-adapter process exited", .exit 0, some 1⟩,
        ⟨2, .error "dap-adapter process exited", .exit 0, some 1⟩] := List.mem_cons_of_mem _ (List.mem_cons_self ..)
  rcases (hclean.lawful _ hsent _ hsettled rfl).rejected _ rfl with ⟨f, hcause, _⟩ | hcause | hcause | hcause
  · cases hcause
  · cases hcause
  · cases hcause
  · cases hcause

end RealDapBridge

end Audesys.Debug
