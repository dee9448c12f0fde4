import Audesys.Agent.Monitor
import Audesys.Runtime.Ipc.Dispatch
import Audesys.Runtime.Ipc.Utf8

/-!
# `Agent.Status` — status reports and what the controller takes them for

`push_status` of the supervisor (`main.rs`): it connects, authenticates, and sends one frame for each child. The
controller's side is `handleFrame`. The method id of the frames, `METHOD_CHILD_STATUS`, is the id of
`METHOD_LOAD_PROGRAM` there, and a supervisor may load programs: a report is run as a program, or it is refused.

Apart from that a report says all that the agent knows of a child but two things (`statusPayload_eq_iff`): what a state
carries, and whether the exit code is `-1` or unknown.
-/

namespace Audesys.Agent

open Audesys.Hal Audesys.Runtime.Ipc

/-! ## Frames -/

def methodAuthRequest : UInt8 := 0x01

/-- "0x06 = SIGNAL_SNAPSHOT in controller, so use 0x07". -/
def methodChildStatus : UInt8 := 0x07

/-- `role_to_u8`. -/
def roleToU8 : Role → UInt8
  | .operator => 0 | .engineer => 1 | .supervisor => 2 | .auditor => 3 | .hmi => 5 | .system => 4

/-- A request of the agent: length, token, method and payload. -/
def buildFrame (token : List UInt8) (methodId : UInt8) (payload : List UInt8) : List UInt8 :=
  MachineInt.leBytes 4 (headerSize + payload.length) ++ (token ++ (methodId :: payload))

/-- The two ends agree on the layout of a frame. -/
theorem buildFrame_eq (token : List UInt8) (methodId : UInt8) (payload : List UInt8) :
    buildFrame token methodId payload = Frame.encode ⟨token, methodId, payload⟩ := rfl

/-! ## Authentication -/

/-- The request of `connect_and_auth`. -/
def authRequest (pid : UInt32) : List UInt8 :=
  buildFrame (List.replicate tokenWireSize 0) methodAuthRequest
    (MachineInt.toLeBytes pid ++ [roleToU8 .supervisor])

/-- `read_response`. -/
def readAnswer (stream : List UInt8) : Except String Response :=
  match readExact stream 4 with
  | none => .error "failed to fill whole buffer"
  | some (lenBytes, stream) =>
    let totalLen := MachineInt.leNat lenBytes
    if totalLen < 6 then .error "response too short"
    else
      match readExact stream (2 + (totalLen - 6)) with
      | none => .error "failed to fill whole buffer"
      | some (rest, _) => .ok ⟨rest.headD 0, (rest.drop 1).headD 0, rest.drop 2⟩

/-- The agent reads an answer as the controller built it. -/
theorem readAnswer_encode {r : Response} (h : r.Fits) (rest : List UInt8) : readAnswer (r.encode ++ rest) = .ok r := by
  have hstream : r.encode ++ rest = MachineInt.leBytes 4 (6 + r.payload.length) ++
      ((r.methodId :: r.status :: r.payload) ++ rest) := List.append_assoc ..
  have hlen : (r.methodId :: r.status :: r.payload).length = 2 + (6 + r.payload.length - 6) := by
    rw [List.length_cons, List.length_cons]
    omega
  unfold readAnswer
  rw [hstream, readExact_append _ (length_leBytes 4 _)]
  dsimp only
  rw [leNat_lengthField h, if_neg (Nat.not_lt.2 (Nat.le_add_right _ _)), readExact_append _ hlen]
  rfl

/-- What `connect_and_auth` makes of the controller's answer: the token. -/
def authToken (answer : List UInt8) : Except String (List UInt8) := do
  let r ← readAnswer answer
  if r.methodId ≠ methodAuthRequest ∨ r.status ≠ statusOk then .error ("auth failed: " ++ lossyString r.payload)
  else if r.payload.length < tokenWireSize then .error "token too short"
  else .ok (r.payload.take tokenWireSize)

/-- A token taken from the answer has the length the wire wants. -/
theorem length_authToken {answer token : List UInt8} (h : authToken answer = .ok token) :
    token.length = tokenWireSize := by
  unfold authToken at h
  cases hread : readAnswer answer with
  | error e =>
    rw [hread] at h
    cases h
  | ok r =>
    rw [hread] at h
    change (if r.methodId ≠ methodAuthRequest ∨ r.status ≠ statusOk then _ else _) = _ at h
    by_cases hstatus : r.methodId ≠ methodAuthRequest ∨ r.status ≠ statusOk
    · rw [if_pos hstatus] at h
      cases h
    · rw [if_neg hstatus] at h
      by_cases hlen : r.payload.length < tokenWireSize
      · rw [if_pos hlen] at h
        cases h
      · rw [if_neg hlen] at h
        cases h
        rw [List.length_take]
        exact Nat.min_eq_left (Nat.le_of_not_lt hlen)

/-! ## Reports -/

def ProcessState.code : ProcessState → UInt8
  | .running => 0
  | .restarting _ _ => 1
  | .failed _ => 2

/-- The exit code; an unknown one is `0xFFFF_FFFF`. -/
def exitBytes : Option Int32 → List UInt8
  | some code => MachineInt.toLeBytes code
  | none => MachineInt.toLeBytes (0xFFFFFFFF : UInt32)

def nameBytes (p : ManagedProcess) : List UInt8 := p.name.toUTF8.toList

/-- The payload of a report. -/
def statusPayload (p : ManagedProcess) : List UInt8 :=
  MachineInt.leBytes 2 (nameBytes p).length ++ (nameBytes p ++
    (p.state.code :: (exitBytes p.exitCode ++ MachineInt.toLeBytes p.restartCount)))

/-- The frames of `push_status`, behind the authentication. -/
def statusFrames (token : List UInt8) (children : List ManagedProcess) : List (List UInt8) :=
  children.map fun p => buildFrame token methodChildStatus (statusPayload p)

/-- What a report is about. -/
structure Record where
  name : String
  state : ProcessState
  exitCode : Option Int32
  restartCount : UInt32
  deriving DecidableEq

def ManagedProcess.record (p : ManagedProcess) : Record := ⟨p.name, p.state, p.exitCode, p.restartCount⟩

theorem length_exitBytes (exitCode : Option Int32) : (exitBytes exitCode).length = 4 := by
  cases exitCode with
  | none => rfl
  | some code => exact length_toLeBytes code

/-- An unknown exit code is sent as `-1`. -/
theorem exitBytes_eq_iff {a b : Option Int32} : exitBytes a = exitBytes b ↔ a.getD (-1) = b.getD (-1) := by
  have hbytes : ∀ exitCode, exitBytes exitCode = MachineInt.toLeBytes (exitCode.getD (-1)) := by
    intro exitCode
    cases exitCode with
    | none => rfl
    | some code => rfl
  rw [hbytes, hbytes, toLeBytes_inj]

/-- UTF-8 keeps names apart. -/
theorem nameBytes_inj {p q : ManagedProcess} (h : nameBytes p = nameBytes q) : p.name = q.name := by
  rw [← lossyString_toUTF8 p.name, ← lossyString_toUTF8 q.name]
  exact congrArg lossyString h

theorem length_statusPayload (p : ManagedProcess) : (statusPayload p).length = (nameBytes p).length + 11 := by
  unfold statusPayload
  rw [List.length_append, List.length_append, List.length_cons, List.length_append, length_leBytes, length_exitBytes,
    length_toLeBytes]
  change 2 + ((nameBytes p).length + (4 + 4 + 1)) = _
  omega

/-- **What a report tells apart.** Two children have the same payload exactly where they have the same name, kind of
state and restart count, and the same exit code, `-1` if there is none. -/
theorem statusPayload_eq_iff {p q : ManagedProcess} : statusPayload p = statusPayload q ↔
    p.name = q.name ∧ p.state.code = q.state.code ∧ p.exitCode.getD (-1) = q.exitCode.getD (-1) ∧
      p.restartCount = q.restartCount := by
  constructor
  · intro h
    -- all but the name has a fixed length
    have hlength : (nameBytes p).length = (nameBytes q).length := by
      have htotal := congrArg List.length h
      rw [length_statusPayload, length_statusPayload] at htotal
      exact Nat.add_right_cancel htotal
    obtain ⟨_, htail⟩ := List.append_inj h ((length_leBytes 2 _).trans (length_leBytes 2 _).symm)
    obtain ⟨hname, htail⟩ := List.append_inj htail hlength
    obtain ⟨hstate, htail⟩ := List.cons.inj htail
    obtain ⟨hexit, hcount⟩ := List.append_inj htail
      ((length_exitBytes p.exitCode).trans (length_exitBytes q.exitCode).symm)
    exact ⟨nameBytes_inj hname, hstate, exitBytes_eq_iff.1 hexit, toLeBytes_inj.1 hcount⟩
  · rintro ⟨hname, hstate, hexit, hcount⟩
    have hbytes : nameBytes p = nameBytes q := congrArg (fun name => name.toUTF8.toList) hname
    unfold statusPayload
    rw [hbytes, hstate, exitBytes_eq_iff.2 hexit, hcount]

/-! ## The controller -/

variable [Target]

/-- The connection's thread on a stream without a read timeout inside a frame: frame for frame, each in its environment,
until it dies. -/
def serve (cfg : Config) : Conn → List Env → List UInt8 → List Outcome
  | _, [], _ => []
  | conn, env :: envs, stream =>
    match readFrame stream with
    | .error _ => []
    | .ok (f, stream) =>
      let o := handleFrame cfg env conn f
      o :: if o.flow = .died then [] else serve cfg o.conn envs stream

/-- A successful authentication of process `pid`: the controller's connection and the agent's token behind it. -/
def Authenticated (cfg : Config) (env : Env) (pid : UInt32) (conn : Conn) (token : List UInt8) : Prop :=
  ∃ o, serve cfg .init [env] (authRequest pid) = [o] ∧ o.conn = conn ∧
    authToken (o.responses.flatMap Response.encode) = .ok token

/-- **The controller understands the reports**: it handles each frame without a call that changes the engine and without
an error, and reports about different things are different. -/
structure Understood (cfg : Config) (conn : Conn) (token : List UInt8) (envs : List Env)
    (children : List ManagedProcess) : Prop where
  handled : ∀ o ∈ serve cfg conn envs (statusFrames token children).flatten,
    o.calls = [] ∧ ∀ r ∈ o.responses, r.status = statusOk
  distinct : ∀ p ∈ children, ∀ q ∈ children, p.record ≠ q.record → statusPayload p ≠ statusPayload q

/-- The frame is run as a program, or it is answered by an error. -/
theorem handleFrame_status (cfg : Config) (env : Env) (conn : Conn) {f : Frame} (hid : f.methodId = methodChildStatus) :
    ¬ ((handleFrame cfg env conn f).calls = [] ∧ ∀ r ∈ (handleFrame cfg env conn f).responses, r.status = statusOk) := by
  have hmethod : Method.ofId f.methodId = some .loadProgram := by
    rw [hid]
    rfl
  have hopening : NotOpening cfg env conn f := by
    rintro _ ⟨hauth, _⟩
    rw [hid] at hauth
    exact absurd hauth (by decide)
  have herror : ∀ msg, ¬ (Response.error f.methodId msg).status = statusOk := by
    intro msg
    rw [Response.error_status]
    decide
  rintro ⟨hcalls, hok⟩
  rcases handleFrame_cases hopening with hrefused | ⟨_, hdispatch, _⟩ | ⟨_, hexpired⟩
  · obtain ⟨msg, flow, _, hanswer⟩ := hrefused.answered
    rw [hanswer] at hok
    exact herror msg (hok _ (List.mem_singleton_self _))
  · rw [hdispatch] at hcalls hok
    unfold dispatch at hcalls hok
    rw [hmethod] at hcalls hok
    dsimp only at hcalls hok
    unfold loadProgramBranch guarded at hcalls hok
    by_cases hrole : canConfig conn.role = true
    · -- the branch of `LOAD_PROGRAM`: the call is made, whatever comes of it
      rw [if_pos hrole] at hcalls
      revert hcalls
      rcases env.engine.loadHalProgram cfg.codec f.payload with ⟨engine, _ | ⟨msg | _⟩⟩
      · exact List.cons_ne_nil _ _
      · exact List.cons_ne_nil _ _
      · exact List.cons_ne_nil _ _
    · rw [if_neg hrole] at hok
      have hstatus := hok _ (List.mem_singleton_self _)
      exact absurd hstatus (by decide)
  · rw [hexpired] at hok
    exact herror _ (hok _ (List.mem_singleton_self _))

/-- The controller reads the first report as it was sent. -/
theorem serve_status (cfg : Config) (conn : Conn) {token : List UInt8} (htoken : token.length = tokenWireSize)
    {p : ManagedProcess} (hname : (nameBytes p).length < 65536) (children : List ManagedProcess) (env : Env)
    (envs : List Env) :
    handleFrame cfg env conn ⟨token, methodChildStatus, statusPayload p⟩ ∈
      serve cfg conn (env :: envs) (statusFrames token (p :: children)).flatten := by
  have hformed : (Frame.mk token methodChildStatus (statusPayload p)).WellFormed := by
    refine ⟨htoken, ?_⟩
    change headerSize + (statusPayload p).length < 2 ^ 32
    rw [length_statusPayload]
    unfold headerSize
    omega
  unfold serve statusFrames
  rw [List.map_cons, List.flatten_cons, buildFrame_eq, readFrame_encode hformed]
  exact List.mem_cons_self ..

/-- **The controller understands the reports exactly where there are none**, behind every successful authentication and
in all environments. -/
theorem understood_iff {cfg : Config} {env : Env} {pid : UInt32} {conn : Conn} {token : List UInt8}
    (hauth : Authenticated cfg env pid conn token) {children : List ManagedProcess}
    (hnames : ∀ p ∈ children, (nameBytes p).length < 65536) {envs : List Env}
    (henvs : envs.length = children.length) : Understood cfg conn token envs children ↔ children = [] := by
  obtain ⟨_, _, _, htoken⟩ := hauth
  constructor
  · intro h
    cases children with
    | nil => rfl
    | cons p children =>
      cases envs with
      | nil => cases henvs
      | cons env envs =>
        have hfirst := serve_status cfg conn (length_authToken htoken) (hnames p (List.mem_cons_self ..)) children env envs
        exact absurd (h.handled _ hfirst) (handleFrame_status cfg env conn rfl)
  · rintro rfl
    cases envs with
    | nil => exact ⟨fun _ h => absurd h List.not_mem_nil, fun _ h => absurd h List.not_mem_nil⟩
    | cons env envs => cases henvs

end Audesys.Agent

/-! ## A report of one child -/

namespace Audesys.Agent

open Audesys.Hal Audesys.Runtime.Ipc

local instance releaseStatus : Target := host false

/-- The first session of a supervisor, opened at time 0. -/
def supervisorSession : SessionInfo := ⟨1, .supervisor, 86400000⟩

theorem authenticated_quiet : Authenticated (defaultConfig constantMac) (quietEnv 0) 4242
    ⟨some supervisorSession, 2⟩ (buildWireToken (defaultConfig constantMac) supervisorSession) := by
  refine ⟨handleFrame (defaultConfig constantMac) (quietEnv 0) .init (authFrame .supervisor), ?_, rfl, ?_⟩
  · have hframe : authRequest 4242 = (authFrame .supervisor).encode ++ [] := by decide
    unfold serve
    rw [hframe, readFrame_encode (f := authFrame .supervisor) ⟨rfl, by decide⟩]
    rfl
  · unfold authToken
    have hanswer : (handleFrame (defaultConfig constantMac) (quietEnv 0) .init
        (authFrame .supervisor)).responses.flatMap Response.encode = Response.encode (.ok methodAuthRequest
          (buildWireToken (defaultConfig constantMac) supervisorSession)) ++ Response.encode (.ok methodAuthRequest
          (buildWireToken (defaultConfig constantMac) supervisorSession)) := rfl
    have hfits : (Response.ok methodAuthRequest
        (buildWireToken (defaultConfig constantMac) supervisorSession)).Fits := by
      unfold Response.Fits
      decide
    rw [hanswer, readAnswer_encode hfits]
    rfl

/-- A child that was just started. -/
def onlyChild : ManagedProcess := .new "plc" "audesys-runtime" []

theorem onlyChild_name : ∀ p ∈ [onlyChild], (nameBytes p).length < 65536 := by
  intro p hp
  rw [List.mem_singleton.1 hp]
  unfold nameBytes
  rw [toUTF8_toList]
  decide

/-- The report of one child, a second behind the login. -/
theorem understood_iff_only : ¬ Understood (defaultConfig constantMac) ⟨some supervisorSession, 2⟩
    (buildWireToken (defaultConfig constantMac) supervisorSession) [quietEnv 1000] [onlyChild] := by
  rw [understood_iff authenticated_quiet onlyChild_name rfl]
  exact List.cons_ne_nil _ _

/-- The report of one child reaches the controller as a program. -/
theorem understood_fails : ¬ ∀ (cfg : Config) (env : Env) (pid : UInt32) (conn : Conn) (token : List UInt8),
    Authenticated cfg env pid conn token → ∀ children : List ManagedProcess,
      (∀ p ∈ children, (nameBytes p).length < 65536) → ∀ envs : List Env, envs.length = children.length →
        Understood cfg conn token envs children := by
  intro h
  have hunderstood := h _ _ _ _ _ authenticated_quiet [onlyChild] onlyChild_name [quietEnv 1000] rfl
  have htoken : (buildWireToken (defaultConfig constantMac) supervisorSession).length = tokenWireSize := rfl
  have hfirst := serve_status (defaultConfig constantMac) ⟨some supervisorSession, 2⟩ htoken
    (onlyChild_name onlyChild (List.mem_singleton_self _)) [] (quietEnv 1000) []
  exact handleFrame_status _ _ _ rfl (hunderstood.handled _ hfirst)

end Audesys.Agent
