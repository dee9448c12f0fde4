import Mathlib.Data.List.Induction
import Audesys.Runtime.Ipc.Dispatch

/-!
# `Runtime.Ipc.Authorization` — who may change the engine

Two readings of the same policy on one connection. The first looks at a single call: whenever a frame makes
a mutating call, a session opened by `handle_auth` on this connection is in force, the frame's own token
verifies for the session's role, nothing is expired, and the role may make the call. The second compares two
sequences of frames: what an unauthorized frame says does not matter, so two sequences that differ only in
such frames make the same calls.

The second reading needs a proviso. A frame that carries a valid token but finds the *session* expired is
refused, and on the way closes the session; the client may then authenticate again, which it could not
before. Such a frame makes no call itself, yet calls of later frames depend on it (`expiry_matters`).
-/

namespace Audesys.Runtime.Ipc

open Audesys.Hal

variable [Target]
variable {cfg : Config}

/-! ## Runs of one connection -/

/-- The connection after a sequence of frames; `none` when its thread has died on the way. -/
def connAfter (cfg : Config) (conn : Conn) : List (Frame × Env) → Option Conn
  | [] => some conn
  | (f, env) :: rest =>
    let o := handleFrame cfg env conn f
    if o.flow = .died then none else connAfter cfg o.conn rest

/-- The mutating calls that a sequence of frames makes, in order. -/
def mutatingCalls (cfg : Config) (conn : Conn) : List (Frame × Env) → List EngineCall
  | [] => []
  | (f, env) :: rest =>
    let o := handleFrame cfg env conn f
    o.calls ++ (if o.flow = .died then [] else mutatingCalls cfg o.conn rest)

theorem connAfter_append {conn : Conn} {xs ys : List (Frame × Env)} :
    connAfter cfg conn (xs ++ ys) = (connAfter cfg conn xs).bind (connAfter cfg · ys) := by
  induction xs generalizing conn with
  | nil => rfl
  | cons x xs ih =>
    simp only [List.cons_append, connAfter]
    split
    · rfl
    · exact ih

/-! ## Sessions come from `handle_auth` -/

/-- The session was opened on this connection: some frame of `pre`, handled without a session, was admitted
    and left this session. -/
def Established (cfg : Config) (pre : List (Frame × Env)) (sess : SessionInfo) : Prop :=
  ∃ a g genv b conn, pre = a ++ (g, genv) :: b ∧ connAfter cfg .init a = some conn ∧ conn.session = none ∧
    AuthAccepted cfg genv g ∧ (handleFrame cfg genv conn g).conn.session = some sess

theorem Established.snoc {pre : List (Frame × Env)} {sess : SessionInfo} (x : Frame × Env)
    (h : Established cfg pre sess) : Established cfg (pre ++ [x]) sess := by
  obtain ⟨a, g, genv, b, conn, rfl, hrest⟩ := h
  exact ⟨a, g, genv, b ++ [x], conn, by simp, hrest⟩

/-- Every session of a run was opened in it. -/
theorem established_of_session {pre : List (Frame × Env)} :
    ∀ {conn : Conn} {sess : SessionInfo}, connAfter cfg .init pre = some conn → conn.session = some sess →
      Established cfg pre sess := by
  -- induction on the last frame: the run so far is what `Established` speaks about
  induction pre using List.reverseRecOn with
  | nil =>
    intro conn sess hc hs
    cases hc
    cases hs
  | append_singleton pre x ih =>
    intro conn sess hc hs
    obtain ⟨f, env⟩ := x
    rw [connAfter_append] at hc
    obtain ⟨mid, hmid, hlast⟩ := Option.bind_eq_some_iff.1 hc
    simp only [connAfter] at hlast
    split at hlast
    · cases hlast
    · cases hlast
      rcases handleFrame_session hs with hs' | ⟨hnone, hacc⟩
      · exact (ih hmid hs').snoc (f, env)
      · exact ⟨pre, f, env, [], mid, rfl, hmid, hnone, hacc, hs⟩

/-! ## Safety of every call -/

/-- The expiry field of a wire token. -/
def tokenExpiry (token : List UInt8) : UInt64 := MachineInt.ofLeBytes ((token.drop 9).take 8)

theorem verifyWireToken_fresh {now : UInt64} {token : List UInt8} {b : UInt8}
    (h : verifyWireToken cfg now token = .ok b) : now ≤ tokenExpiry token := by
  simp only [verifyWireToken] at h
  split at h
  · cases h
  · split at h
    · cases h
    · rename_i hexp
      exact UInt64.not_lt.1 hexp

/-- The call of a frame is authorized. -/
def CallAuthorized (cfg : Config) (pre : List (Frame × Env)) (conn : Conn) (f : Frame) (env : Env)
    (call : EngineCall) : Prop :=
  ∃ sess roleByte, conn.session = some sess ∧ Established cfg pre sess ∧
    verifyWireToken cfg env.nowToken f.token = .ok roleByte ∧ Role.ofU8 roleByte = some sess.role ∧
    env.nowToken ≤ tokenExpiry f.token ∧ env.nowSession ≤ sess.expiresAtMs ∧
    call.permits (some sess.role) = true

/-- Every mutating call of every frame of every sequence is authorized. -/
def CallsAuthorized (cfg : Config) : Prop :=
  ∀ pre f env conn call, connAfter cfg .init pre = some conn → call ∈ (handleFrame cfg env conn f).calls →
    CallAuthorized cfg pre conn f env call

theorem callsAuthorized (cfg : Config) : CallsAuthorized cfg := by
  intro pre f env conn call hconn hcall
  by_cases hop : conn.session = none ∧ AuthAccepted cfg env f
  · -- opening a session makes no call
    rcases handleFrame_accepted hop.1 hop.2 with ⟨sess, r, _, _, _, ho⟩ | ho
    · rw [ho] at hcall; cases hcall
    · rw [ho] at hcall; cases hcall
  · have hno : NotOpening cfg env conn f := fun hs hacc => hop ⟨hs, hacc⟩
    rcases handleFrame_cases hno with href | ⟨⟨sess, hs, ht, hfresh⟩, _, hb⟩ | ⟨_, ho⟩
    · obtain ⟨msg, flow, _, ho⟩ := href.answered
      rw [ho] at hcall; cases hcall
    · obtain ⟨roleByte, hv, hr⟩ := ht.verified
      have hrole : conn.role = some sess.role := by simp [Conn.role, hs]
      have hperm := hb.calls call hcall
      rw [hrole] at hperm
      exact ⟨sess, roleByte, hs, established_of_session hconn hs, hv, hr, verifyWireToken_fresh hv, hfresh, hperm⟩
    · rw [ho] at hcall; cases hcall

/-! ## Unauthorized frames do not matter -/

/-- The frame is not authorized: it neither opens a session nor reaches, under a valid one, a branch whose
    role test it passes. -/
def Unauthorized (cfg : Config) (conn : Conn) (it : Frame × Env) : Prop :=
  NotOpening cfg it.2 conn it.1 ∧
    (¬ Admitted cfg it.2 conn it.1 ∨
      ∃ m, Method.ofId it.1.methodId = some m ∧ m.permits conn.role = false)

/-- Two sequences, on two connections in the given states, differ only in frames with `U`: up to frames that
    satisfy `U` where they are handled, on either side, they are the same frames. -/
inductive DifferOnlyIn (cfg : Config) (U : Conn → Frame × Env → Prop) :
    Conn → Conn → List (Frame × Env) → List (Frame × Env) → Prop
  | nil (c d : Conn) : DifferOnlyIn cfg U c d [] []
  | both {c d : Conn} {f : Frame} {env : Env} {xs ys : List (Frame × Env)} :
      DifferOnlyIn cfg U (handleFrame cfg env c f).conn (handleFrame cfg env d f).conn xs ys →
      DifferOnlyIn cfg U c d ((f, env) :: xs) ((f, env) :: ys)
  | left {c d : Conn} {x : Frame × Env} {xs ys : List (Frame × Env)} :
      U c x → DifferOnlyIn cfg U (handleFrame cfg x.2 c x.1).conn d xs ys → DifferOnlyIn cfg U c d (x :: xs) ys
  | right {c d : Conn} {y : Frame × Env} {xs ys : List (Frame × Env)} :
      U d y → DifferOnlyIn cfg U c (handleFrame cfg y.2 d y.1).conn xs ys → DifferOnlyIn cfg U c d xs (y :: ys)

/-- An unauthorized frame that does not close an expired session changes nothing and makes no call. -/
theorem unauthorized_inert {conn : Conn} {it : Frame × Env} (h : Unauthorized cfg conn it)
    (hexp : ¬ Expires cfg it.2 conn it.1) :
    (handleFrame cfg it.2 conn it.1).conn = conn ∧ (handleFrame cfg it.2 conn it.1).calls = [] ∧
      (handleFrame cfg it.2 conn it.1).flow ≠ .died := by
  obtain ⟨hno, hunauth⟩ := h
  rcases handleFrame_cases hno with href | ⟨hadm, hd, _⟩ | ⟨he, _⟩
  · obtain ⟨msg, flow, hflow, ho⟩ := href.answered
    rw [ho]
    exact ⟨rfl, rfl, hflow⟩
  · rcases hunauth with hna | ⟨m, hm, hp⟩
    · exact absurd hadm hna
    · rw [hd, dispatch_unpermitted hm hp]
      exact ⟨rfl, rfl, nofun⟩
  · exact absurd he hexp

/-- An unauthorized frame that leaves the session alone. -/
def Inert (cfg : Config) (conn : Conn) (it : Frame × Env) : Prop :=
  Unauthorized cfg conn it ∧ ¬ Expires cfg it.2 conn it.1

theorem mutatingCalls_eq {c d : Conn} {xs ys : List (Frame × Env)}
    (h : DifferOnlyIn cfg (Inert cfg) c d xs ys) (hcd : c = d) :
    mutatingCalls cfg c xs = mutatingCalls cfg d ys := by
  -- the two connections stay in the same state: the frames in which the sequences differ do not move them
  induction h with
  | nil c d => rfl
  | @both c d f env xs ys _ ih =>
    subst hcd
    simp only [mutatingCalls, ih rfl]
  | @left c d x xs ys hu _ ih =>
    obtain ⟨hc, hcalls, hflow⟩ := unauthorized_inert hu.1 hu.2
    rw [hc] at ih
    simp only [mutatingCalls, hc, hcalls, if_neg hflow, List.nil_append, ih hcd]
  | @right c d y xs ys hu _ ih =>
    obtain ⟨hc, hcalls, hflow⟩ := unauthorized_inert hu.1 hu.2
    rw [hc] at ih
    simp only [mutatingCalls, hc, hcalls, if_neg hflow, List.nil_append, ih hcd]

/-- **Authorization.** Every mutating call is authorized, and sequences that differ only in unauthorized
    frames, other than frames that close an expired session, make the same calls. -/
theorem authorization (cfg : Config) :
    CallsAuthorized cfg ∧
      ∀ xs ys, DifferOnlyIn cfg (Inert cfg) .init .init xs ys →
        mutatingCalls cfg .init xs = mutatingCalls cfg .init ys :=
  ⟨callsAuthorized cfg, fun _ _ h => mutatingCalls_eq h rfl⟩

end Audesys.Runtime.Ipc

/-! ## Expiry matters -/

namespace Audesys.Runtime.Ipc

open Audesys.Hal

local instance releaseAuthorization : Target := host false

/-- `PAUSE` under the token of the `sid`-th session, of an engineer, valid until `expires`. -/
def pauseFrame (sid expires : UInt64) : Frame :=
  ⟨buildWireToken (defaultConfig constantMac) ⟨sid, .engineer, expires⟩, Method.pause.id, []⟩

/-- The session of time 0 runs out between the two clock readings of this frame. -/
def expiringItem : Frame × Env :=
  (pauseFrame 1 3600000, { quietEnv 3600000 with nowSession := 3600001 })

/-- Log in, log in again two milliseconds after the first session's end, pause. -/
def secondLogin : List (Frame × Env) :=
  [(authFrame .engineer, quietEnv 3600002), (pauseFrame 2 7200002, quietEnv 3600003)]

/-- The frame that finds the session expired is unauthorized, but the pause after the second login happens
    only behind it. -/
theorem expiry_matters :
    DifferOnlyIn (defaultConfig constantMac) (Unauthorized (defaultConfig constantMac)) .init .init
        ((authFrame .engineer, quietEnv 0) :: expiringItem :: secondLogin)
        ((authFrame .engineer, quietEnv 0) :: secondLogin) ∧
      mutatingCalls (defaultConfig constantMac) .init
          ((authFrame .engineer, quietEnv 0) :: expiringItem :: secondLogin) = [.pause] ∧
      mutatingCalls (defaultConfig constantMac) .init ((authFrame .engineer, quietEnv 0) :: secondLogin) = [] := by
  have hconn : (handleFrame (defaultConfig constantMac) (quietEnv 0) .init (authFrame .engineer)).conn =
      ⟨some ⟨1, .engineer, 3600000⟩, 2⟩ := by decide
  refine ⟨.both (.left ?_ (.both (.both (.nil _ _)))), rfl, rfl⟩
  rw [hconn]
  refine ⟨nofun, .inl ?_⟩
  rintro ⟨sess, hs, _, hfresh⟩
  cases hs
  exact absurd hfresh (by decide)

/-- A login, with a stray frame before it, and a pause: the pause is authorized, and the stray frame does not
    change the calls. -/
theorem authorization_login :
    CallAuthorized (defaultConfig constantMac) [(authFrame .engineer, quietEnv 0)]
        ⟨some ⟨1, .engineer, 3600000⟩, 2⟩ (pauseFrame 1 3600000) (quietEnv 7) .pause ∧
      mutatingCalls (defaultConfig constantMac) .init
          [(pauseFrame 9 0, quietEnv 5), (authFrame .engineer, quietEnv 0), (pauseFrame 1 3600000, quietEnv 7)] =
        mutatingCalls (defaultConfig constantMac) .init
          [(authFrame .engineer, quietEnv 0), (pauseFrame 1 3600000, quietEnv 7)] := by
  refine ⟨(authorization (defaultConfig constantMac)).1 _ _ _ _ _ rfl List.mem_cons_self,
    (authorization (defaultConfig constantMac)).2 _ _ (.left ?_ (.both (.both (.nil _ _))))⟩
  refine ⟨⟨fun _ h => absurd h.1 (by decide), .inl ?_⟩, ?_⟩
  · rintro ⟨sess, hs, _⟩
    cases hs
  · rintro ⟨sess, hs, _⟩
    cases hs

end Audesys.Runtime.Ipc
