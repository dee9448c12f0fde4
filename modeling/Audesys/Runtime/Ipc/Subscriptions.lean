import Audesys.Lib.Trace
import Audesys.Runtime.Ipc.Dispatch

/-!
# `Runtime.Ipc.Subscriptions` — the subscription table under all connections

The table the engine pushes from is shared by every connection of a server. Each connection handles its
frames on a thread of its own, so the accesses of different connections interleave: the dispatch of a frame
with its edit of the table is one action, and the clean-up at the end of the loop body is another.

A connection is named by a number, which also stands for its stream: an entry `(sid, c)` under a signal is
the session id `sid` with a clone of the stream of connection `c`. The `log` keeps what was handled, so that
statements can speak about acknowledged subscriptions.

One invariant carries both results: an entry of `c` exists only between the dispatch of a frame of `c` and
the clean-up of that same frame (`SubsInv`).
-/

namespace Audesys.Runtime.Ipc

open Audesys.Hal Audesys.Lib

/-! ## The table -/

/-- `HashMap<String, Vec<(u64, stream)>>`, as the list of its entries. -/
abbrev Table := List (String × List (UInt64 × Nat))

namespace Table

/-- Connection `c` has an entry for `signal` under `sid`. -/
def Has (t : Table) (signal : String) (sid : UInt64) (c : Nat) : Prop :=
  ∃ streams, (signal, streams) ∈ t ∧ (sid, c) ∈ streams

/-- `entry(signal).or_default().push(..)`. -/
def push (signal : String) (e : UInt64 × Nat) : Table → Table
  | [] => [(signal, [e])]
  | (k, v) :: t => if k = signal then (k, v ++ [e]) :: t else (k, v) :: push signal e t

/-- `UNSUBSCRIBE_SIGNAL`: drop the session's streams of one signal, and the signal when none is left. -/
def remove (signal : String) (sid : UInt64) : Table → Table
  | [] => []
  | (k, v) :: t =>
    if k = signal then
      let v' := v.filter (fun e => e.1 ≠ sid)
      if v'.isEmpty then t else (k, v') :: t
    else (k, v) :: remove signal sid t

/-- The clean-up: drop every stream of the session, then the signals without streams. -/
def dropSession (sid : UInt64) (t : Table) : Table :=
  (t.map fun kv => (kv.1, kv.2.filter fun e => e.1 ≠ sid)).filter fun kv => !kv.2.isEmpty

variable {t : Table} {signal k : String} {sid sid' : UInt64} {c d : Nat} {v : List (UInt64 × Nat)}

theorem not_has_nil : ¬ Has [] k sid' d := by
  rintro ⟨_, hm, _⟩
  cases hm

theorem has_cons {k' : String} : Has ((k, v) :: t) k' sid' d ↔ (k' = k ∧ (sid', d) ∈ v) ∨ Has t k' sid' d := by
  constructor
  · rintro ⟨streams, hm, he⟩
    rcases List.mem_cons.1 hm with hm | hm
    · cases hm
      exact .inl ⟨rfl, he⟩
    · exact .inr ⟨streams, hm, he⟩
  · rintro (⟨rfl, he⟩ | ⟨streams, hm, he⟩)
    · exact ⟨v, List.mem_cons_self, he⟩
    · exact ⟨streams, List.mem_cons_of_mem _ hm, he⟩

theorem has_push : Has (push signal (sid, c) t) k sid' d ↔
    Has t k sid' d ∨ (k = signal ∧ sid' = sid ∧ d = c) := by
  induction t with
  | nil => simp [push, has_cons, not_has_nil]
  | cons kv t ih =>
    obtain ⟨k₀, v₀⟩ := kv
    simp only [push]
    split
    · rename_i h
      subst h
      simp only [has_cons, List.mem_append, List.mem_singleton, Prod.mk.injEq]
      grind
    · simp only [has_cons, ih]
      grind

/-- Removing takes nothing from other sessions, and adds nothing. -/
theorem has_of_has_remove (h : Has (remove signal sid t) k sid' d) : Has t k sid' d := by
  induction t with
  | nil => exact h
  | cons kv t ih =>
    obtain ⟨k₀, v₀⟩ := kv
    simp only [remove] at h
    split at h
    · split at h
      · exact has_cons.2 (.inr h)
      · rcases has_cons.1 h with ⟨hk, he⟩ | h
        · exact has_cons.2 (.inl ⟨hk, (List.mem_filter.1 he).1⟩)
        · exact has_cons.2 (.inr h)
    · rcases has_cons.1 h with ⟨hk, he⟩ | h
      · exact has_cons.2 (.inl ⟨hk, he⟩)
      · exact has_cons.2 (.inr (ih h))

theorem has_remove_of_ne (h : Has t k sid' d) (hne : sid' ≠ sid) : Has (remove signal sid t) k sid' d := by
  induction t with
  | nil => exact h
  | cons kv t ih =>
    obtain ⟨k₀, v₀⟩ := kv
    simp only [remove]
    rcases has_cons.1 h with ⟨hk, he⟩ | h
    · have hf : (sid', d) ∈ v₀.filter (fun e => e.1 ≠ sid) := List.mem_filter.2 ⟨he, by simpa using hne⟩
      split
      · split
        · rename_i hempty
          rw [List.isEmpty_iff.1 hempty] at hf
          cases hf
        · exact has_cons.2 (.inl ⟨hk, hf⟩)
      · exact has_cons.2 (.inl ⟨hk, he⟩)
    · split
      · split
        · exact h
        · exact has_cons.2 (.inr h)
      · exact has_cons.2 (.inr (ih h))

theorem has_dropSession : Has (dropSession sid t) k sid' d ↔ Has t k sid' d ∧ sid' ≠ sid := by
  constructor
  · rintro ⟨streams, hm, he⟩
    obtain ⟨hm, _⟩ := List.mem_filter.1 hm
    obtain ⟨⟨k₀, v₀⟩, hkv, heq⟩ := List.mem_map.1 hm
    cases heq
    obtain ⟨he, hne⟩ := List.mem_filter.1 he
    exact ⟨⟨v₀, hkv, he⟩, by simpa using hne⟩
  · rintro ⟨⟨streams, hm, he⟩, hne⟩
    have hf : (sid', d) ∈ streams.filter (fun e => e.1 ≠ sid) := List.mem_filter.2 ⟨he, by simpa using hne⟩
    refine ⟨_, List.mem_filter.2 ⟨List.mem_map.2 ⟨(k, streams), hm, rfl⟩, ?_⟩, hf⟩
    cases hl : streams.filter (fun e => e.1 ≠ sid) with
    | nil => rw [hl] at hf; cases hf
    | cons _ _ => simp

end Table

/-! ## The server -/

/-- Where a connection's thread stands. -/
inductive Phase where
  /-- Not accepted yet. -/
  | unborn
  /-- Waiting for a frame. -/
  | idle (conn : Conn)
  /-- Past the dispatch of a frame, in front of the clean-up. -/
  | cleaning (conn : Conn)
  /-- Disconnected, or dead. -/
  | gone
  deriving DecidableEq

def Phase.session : Phase → Option SessionInfo
  | .idle conn | .cleaning conn => conn.session
  | .unborn | .gone => none

inductive Event where
  | handled (c : Nat) (f : Frame) (responses : List Response)
  | disconnected (c : Nat)
  deriving DecidableEq

structure Server where
  phase : Nat → Phase
  subs : Table
  log : List Event

/-- The actions, by connection. -/
inductive ServerAction [Target] where
  | accept (c : Nat)
  | frame (c : Nat) (f : Frame) (env : Env)
  | cleanup (c : Nat)
  | disconnect (c : Nat)

namespace Server

def init : Server := ⟨fun _ => .unborn, [], []⟩

def setPhase (σ : Server) (c : Nat) (p : Phase) : Server :=
  { σ with phase := fun d => if d = c then p else σ.phase d }

@[simp] theorem setPhase_self (σ : Server) (c : Nat) (p : Phase) : (σ.setPhase c p).phase c = p :=
  if_pos rfl
theorem setPhase_other (σ : Server) {c d : Nat} (p : Phase) (h : d ≠ c) : (σ.setPhase c p).phase d = σ.phase d :=
  if_neg h
@[simp] theorem setPhase_subs (σ : Server) (c : Nat) (p : Phase) : (σ.setPhase c p).subs = σ.subs := rfl
@[simp] theorem setPhase_log (σ : Server) (c : Nat) (p : Phase) : (σ.setPhase c p).log = σ.log := rfl

/-- The edit of a frame of connection `c`. -/
def applyEdit (c : Nat) (t : Table) : Option SubsEdit → Table
  | none => t
  | some (.subscribe signal sid) => t.push signal (sid, c)
  | some (.unsubscribe signal sid) => t.remove signal sid

variable [Target]

/-- Where the thread stands after an outcome. -/
def phaseAfter (o : Outcome) : Phase :=
  match o.flow with
  | .next => .idle o.conn
  | .cleanup => .cleaning o.conn
  | .died => .gone

/-- What the log records of an iteration. A dead thread closes its stream. -/
def record (c : Nat) (f : Frame) (o : Outcome) : List Event :=
  if o.flow = .died then [.handled c f o.responses, .disconnected c] else [.handled c f o.responses]

/-- One action. The accept loop creates the id counter of a connection together with the connection. -/
def step (cfg : Config) (σ : Server) : ServerAction → Option Server
  | .accept c =>
    match σ.phase c with
    | .unborn => some (σ.setPhase c (.idle .init))
    | _ => none
  | .frame c f env =>
    match σ.phase c with
    | .idle conn =>
      let o := handleFrame cfg env conn f
      some ({ σ with subs := applyEdit c σ.subs o.edit, log := σ.log ++ record c f o }.setPhase c (phaseAfter o))
    | _ => none
  | .cleanup c =>
    match σ.phase c with
    | .cleaning conn =>
      let subs := match conn.session with
        | some sess => σ.subs.dropSession sess.sessionId
        | none => σ.subs
      some ({ σ with subs }.setPhase c (.idle conn))
    | _ => none
  | .disconnect c =>
    match σ.phase c with
    | .idle _ => some ({ σ with log := σ.log ++ [Event.disconnected c] }.setPhase c .gone)
    | _ => none

/-- The table after the clean-up of a connection. -/
def cleaned (t : Table) (conn : Conn) : Table :=
  match conn.session with
  | some sess => t.dropSession sess.sessionId
  | none => t

/-- What one action can do: where its connection stands before it, and the state it leaves. -/
inductive Step (cfg : Config) (σ : Server) : ServerAction → Server → Prop
  | accept {c : Nat} (hc : σ.phase c = .unborn) : Step cfg σ (.accept c) (σ.setPhase c (.idle .init))
  | frame {c : Nat} {f : Frame} {env : Env} {conn : Conn} {o : Outcome} (hc : σ.phase c = .idle conn)
      (ho : handleFrame cfg env conn f = o) :
      Step cfg σ (.frame c f env)
        ({ σ with subs := applyEdit c σ.subs o.edit, log := σ.log ++ record c f o }.setPhase c (phaseAfter o))
  | cleanup {c : Nat} {conn : Conn} (hc : σ.phase c = .cleaning conn) :
      Step cfg σ (.cleanup c) ({ σ with subs := cleaned σ.subs conn }.setPhase c (.idle conn))
  | disconnect {c : Nat} {conn : Conn} (hc : σ.phase c = .idle conn) :
      Step cfg σ (.disconnect c) ({ σ with log := σ.log ++ [Event.disconnected c] }.setPhase c .gone)

theorem step_cases {cfg : Config} {σ τ : Server} {a : ServerAction} (h : step cfg σ a = some τ) : Step cfg σ a τ := by
  cases a with
  | accept c =>
    simp only [step] at h
    split at h
    · cases h
      apply Step.accept
      assumption
    · cases h
  | frame c f env =>
    simp only [step] at h
    split at h
    · cases h
      exact .frame (by assumption) rfl
    · cases h
  | cleanup c =>
    simp only [step] at h
    split at h
    · cases h
      apply Step.cleanup
      assumption
    · cases h
  | disconnect c =>
    simp only [step] at h
    split at h
    · cases h
      apply Step.disconnect
      assumption
    · cases h

end Server

open Server

variable [Target]

/-! ## Entries live inside one iteration -/

/-- An entry of `c` belongs to the session of `c`, and `c` is in front of its clean-up. -/
def SubsInv (σ : Server) : Prop :=
  ∀ signal sid c, σ.subs.Has signal sid c →
    ∃ conn sess, σ.phase c = .cleaning conn ∧ conn.session = some sess ∧ sess.sessionId = sid

/-- The outcome of a frame that edits the table: the edit carries the session's id, the session stays, and
    the clean-up follows. -/
theorem handleFrame_edit {cfg : Config} {env : Env} {conn : Conn} {f : Frame} {e : SubsEdit}
    (h : (handleFrame cfg env conn f).edit = some e) :
    e.Owned conn ∧ phaseAfter (handleFrame cfg env conn f) = .cleaning conn := by
  by_cases hop : conn.session = none ∧ AuthAccepted cfg env f
  · rcases handleFrame_accepted hop.1 hop.2 with ⟨sess, r, _, _, _, ho⟩ | ho
    · rw [ho] at h; cases h
    · rw [ho] at h; cases h
  · have hno : NotOpening cfg env conn f := fun hs hacc => hop ⟨hs, hacc⟩
    rcases handleFrame_cases hno with href | ⟨_, _, hb⟩ | ⟨_, ho⟩
    · obtain ⟨msg, flow, _, ho⟩ := href.answered
      rw [ho] at h; cases h
    · obtain ⟨hflow, howned⟩ := hb.edit e h
      refine ⟨howned, ?_⟩
      simp only [phaseAfter, hflow, hb.conn_eq]
    · rw [ho] at h; cases h

omit [Target] in
/-- Another connection's entries after an edit were there before; its own entry is the one it adds. -/
theorem has_applyEdit {c d : Nat} {t : Table} {edit : Option SubsEdit} {signal : String} {sid : UInt64}
    (h : (applyEdit c t edit).Has signal sid d) : t.Has signal sid d ∨ (d = c ∧ edit = some (.subscribe signal sid)) := by
  cases edit with
  | none => exact .inl h
  | some e =>
    cases e with
    | subscribe s k =>
      rcases Table.has_push.1 h with h | ⟨hs, hk, hd⟩
      · exact .inl h
      · exact .inr ⟨hd, by rw [hs, hk]⟩
    | unsubscribe s k => exact .inl (Table.has_of_has_remove h)

theorem subsInv_step {cfg : Config} {σ τ : Server} {a : ServerAction} (hstep : step cfg σ a = some τ)
    (h : SubsInv σ) : SubsInv τ := by
  intro signal sid d hd
  -- an entry that was there before stands in front of its clean-up: its connection does not act
  have hkept : ∀ {c : Nat} {p : Phase}, (∀ conn, σ.phase c ≠ .cleaning conn) → σ.subs.Has signal sid d →
      ∃ conn sess, (σ.setPhase c p).phase d = .cleaning conn ∧ conn.session = some sess ∧ sess.sessionId = sid := by
    intro c p hc hd
    obtain ⟨conn, sess, hp, hs, hid⟩ := h signal sid d hd
    have hdc : d ≠ c := by
      rintro rfl
      exact hc conn hp
    exact ⟨conn, sess, by rw [setPhase_other _ _ hdc]; exact hp, hs, hid⟩
  cases step_cases hstep with
  | accept hc => exact hkept (by simp [hc]) hd
  | frame hc ho =>
    subst ho
    rcases has_applyEdit hd with hd | ⟨rfl, hedit⟩
    · exact hkept (by simp [hc]) hd
    · -- the entry this very frame adds
      obtain ⟨⟨sess, s, hs, he⟩, hphase⟩ := handleFrame_edit hedit
      refine ⟨_, sess, by rw [setPhase_self]; exact hphase, hs, ?_⟩
      rcases he with he | he
      · cases he; rfl
      · cases he
  | @cleanup c conn hc =>
    simp only [setPhase_subs, cleaned] at hd
    have hbefore : σ.subs.Has signal sid d := by
      split at hd
      · exact (Table.has_dropSession.1 hd).1
      · exact hd
    obtain ⟨conn', sess, hp, hs, hid⟩ := h signal sid d hbefore
    by_cases hdc : d = c
    · -- the clean-up has just dropped the entries of `c`
      subst hdc
      rw [hc] at hp
      cases hp
      rw [hs] at hd
      exact absurd hid.symm (Table.has_dropSession.1 hd).2
    · exact ⟨conn', sess, by rw [setPhase_other _ _ hdc]; exact hp, hs, hid⟩
  | disconnect hc => exact hkept (by simp [hc]) hd

/-- The invariant holds in every reachable state. -/
theorem subsInv_run {cfg : Config} {as : List ServerAction} {σ : Server} (h : Trace (step cfg) init as σ) :
    SubsInv σ :=
  Trace.invariant (fun _ _ _ hs hi => subsInv_step hs hi) h (fun _ _ _ hd => absurd hd Table.not_has_nil)

/-! ## Acknowledged subscriptions -/

/-- The frame is a `SUBSCRIBE_SIGNAL` (or `UNSUBSCRIBE_SIGNAL`) for the signal. -/
def Names (m : Method) (signal : String) (f : Frame) : Prop :=
  Method.ofId f.methodId = some m ∧ lossyString f.payload = signal

/-- Connection `c` subscribed to `signal`, was acknowledged, and has neither unsubscribed nor disconnected
    since. -/
def LiveSubscription (log : List Event) (c : Nat) (signal : String) : Prop :=
  ∃ pre f rs post, log = pre ++ .handled c f rs :: post ∧ Names .subscribeSignal signal f ∧
    (∃ r ∈ rs, r.status = statusOk) ∧
    (∀ g rs', .handled c g rs' ∈ post → ¬ Names .unsubscribeSignal signal g) ∧ .disconnected c ∉ post

/-- **Persistence**: every live subscription of a connection whose last frame is handled to its end has an entry
    with that connection's stream. -/
def Persistent (σ : Server) : Prop :=
  ∀ c conn signal, σ.phase c = .idle conn → LiveSubscription σ.log c signal → ∃ sid, σ.subs.Has signal sid c

/-- **Subscriptions do not persist.** The clean-up of the frame that subscribed has dropped the entry again, so
    persistence holds in a reachable state exactly when there is no subscription to keep. -/
theorem persistent_iff (cfg : Config) (as : List ServerAction) (σ : Server) (hrun : Trace (step cfg) init as σ) :
    Persistent σ ↔ ∀ c conn signal, σ.phase c = .idle conn → ¬ LiveSubscription σ.log c signal := by
  constructor
  · intro hp c conn signal hidle hlive
    obtain ⟨sid, hhas⟩ := hp c conn signal hidle hlive
    obtain ⟨conn', _, hphase, _, _⟩ := subsInv_run hrun signal sid c hhas
    rw [hidle] at hphase
    cases hphase
  · intro hnone c conn signal hidle hlive
    exact absurd hlive (hnone c conn signal hidle)

end Audesys.Runtime.Ipc

/-! ## One subscriber -/

namespace Audesys.Runtime.Ipc

open Audesys.Hal Audesys.Lib Server

local instance releaseSubscriptions : Target := host false

/-- A frame of the given method under the token of the first engineer session of time 0. -/
def engineerFrame (m : Method) (payload : List UInt8) : Frame :=
  ⟨buildWireToken (defaultConfig constantMac) ⟨1, .engineer, 3600000⟩, m.id, payload⟩

/-- Log in and subscribe to signal `x`. -/
def subscriberRun : List ServerAction :=
  [.accept 0, .frame 0 (authFrame .engineer) (quietEnv 0), .cleanup 0,
    .frame 0 (engineerFrame .subscribeSignal [0x78]) (quietEnv 1), .cleanup 0]

/-- The state it ends in: the table is empty, the subscription acknowledged. -/
theorem subscriberRun_ends : ∃ σ, Trace (step (defaultConfig constantMac)) init subscriberRun σ ∧
    σ.phase 0 = .idle ⟨some ⟨1, .engineer, 3600000⟩, 2⟩ ∧ LiveSubscription σ.log 0 (lossyString [0x78]) ∧
    σ.subs = [] :=
  ⟨_, .cons rfl (.cons rfl (.cons rfl (.cons rfl (.cons rfl (.nil _))))), rfl,
    ⟨[.handled 0 (authFrame .engineer) _], engineerFrame .subscribeSignal [0x78], _, [], rfl, ⟨rfl, rfl⟩,
      ⟨_, List.mem_cons_self, rfl⟩, nofun, nofun⟩, rfl⟩

/-- The acknowledged subscription is gone when the frame is handled. -/
theorem subscriberRun_not_persistent : ∃ σ, Trace (step (defaultConfig constantMac)) init subscriberRun σ ∧
    ¬ Persistent σ := by
  obtain ⟨σ, hrun, hidle, hlive, hsubs⟩ := subscriberRun_ends
  refine ⟨σ, hrun, fun hp => ?_⟩
  obtain ⟨sid, hhas⟩ := hp 0 _ _ hidle hlive
  rw [hsubs] at hhas
  exact Table.not_has_nil hhas

/-- The same, and then unsubscribe. -/
def unsubscriberRun : List ServerAction :=
  subscriberRun ++ [.frame 0 (engineerFrame .unsubscribeSignal [0x78]) (quietEnv 2), .cleanup 0]

/-- With the subscription taken back there is none to keep. -/
theorem unsubscriber_persistent : ∃ σ, Trace (step (defaultConfig constantMac)) init unsubscriberRun σ ∧
    Persistent σ := by
  have hreach : ∃ σ rs₁ rs₂ rs₃, Trace (step (defaultConfig constantMac)) init unsubscriberRun σ ∧
      σ.log = [.handled 0 (authFrame .engineer) rs₁, .handled 0 (engineerFrame .subscribeSignal [0x78]) rs₂,
        .handled 0 (engineerFrame .unsubscribeSignal [0x78]) rs₃] :=
    ⟨_, _, _, _, .cons rfl (.cons rfl (.cons rfl (.cons rfl (.cons rfl (.cons rfl (.cons rfl (.nil _))))))), rfl⟩
  obtain ⟨σ, rs₁, rs₂, rs₃, hrun, hlog⟩ := hreach
  refine ⟨σ, hrun, (persistent_iff (defaultConfig constantMac) _ σ hrun).2 ?_⟩
  rintro c conn signal _ ⟨pre, f, rs, post, hsplit, hf, _, hkept, _⟩
  rw [hlog] at hsplit
  match pre, hsplit with
  | [], heq =>
    cases heq
    exact absurd hf.1 (by decide)
  | [_], heq =>
    cases heq
    exact hkept _ rs₃ (List.mem_singleton_self _) ⟨rfl, hf.2⟩
  | [_, _], heq =>
    cases heq
    exact absurd hf.1 (by decide)
  | _ :: _ :: _ :: pre, heq => simp at heq

end Audesys.Runtime.Ipc
