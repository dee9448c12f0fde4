import Audesys.Hal.Host
import Audesys.Runtime.Engine
import Audesys.Runtime.Ipc.Wire

/-!
# `Runtime.Ipc.Connection` — one iteration of `handle_connection`

The server side of one connection. `handleFrame` is the body of the message loop for one frame: the token
check that runs once a session exists, the dispatch on the method id, and what the branch did. Everything
the iteration takes from outside is in `Env` (clock readings, peer credentials, the engine as this frame
finds it, the middleware's answers), so a statement over all `Env`s covers every schedule of the other
threads and every clock.

What an iteration does is an `Outcome`: the response frames it writes, the mutating calls it makes, the edit
of the subscription table, the new session, and how it ends: with a `continue`, at the clean-up that closes
the loop body, or by a panic of the connection's thread.
-/

namespace Audesys.Runtime.Ipc

open Audesys.Hal

variable [Target]

/-! ## Roles and sessions -/

inductive Role where
  | operator | engineer | supervisor | auditor | hmi | system
  deriving DecidableEq

namespace Role

/-- `role_to_u8`. -/
def toU8 : Role → UInt8
  | .operator => 0 | .engineer => 1 | .supervisor => 2 | .auditor => 3 | .hmi => 5 | .system => 4

/-- `role_from_u8`: `Hmi` has no byte that decodes to it. -/
def ofU8 (b : UInt8) : Option Role :=
  if b = 0 then some .operator
  else if b = 1 then some .engineer
  else if b = 2 then some .supervisor
  else if b = 3 then some .auditor
  else if b = 4 then some .system
  else none

/-- The `Debug` text. -/
def name : Role → String
  | .operator => "Operator" | .engineer => "Engineer" | .supervisor => "Supervisor" | .auditor => "Auditor"
  | .hmi => "Hmi" | .system => "System"

end Role

/-- `default_whitelist`. -/
def defaultWhitelist : Role → Option (List UInt32)
  | .supervisor => some [0, 1000]
  | .engineer => some [1000]
  | .operator => some [1000, 1001]
  | .auditor => some [1000]
  | .system => some [0]
  | .hmi => none

/-- `is_uid_allowed`. -/
def isUidAllowed (whitelist : Role → Option (List UInt32)) (role : Role) (uid : UInt32) : Bool :=
  match whitelist role with
  | some uids => uids.contains uid
  | none => false

structure SessionInfo where
  sessionId : UInt64
  role : Role
  expiresAtMs : UInt64
  deriving DecidableEq

def canConfig : Option Role → Bool
  | some .engineer | some .supervisor | some .system => true
  | _ => false

def canRead (role : Option Role) : Bool := role.isSome

def canWrite : Option Role → Bool
  | some .engineer | some .supervisor | some .system | some .hmi => true
  | _ => false

def defaultTokenTtlMs : UInt64 := 3600000
def agentTokenTtlMs : UInt64 := 86400000

/-! ## Server and environment -/

/-- What all connections of a server share and never change. `mac` is HMAC-SHA256 (key, message). -/
structure Config where
  secret : List UInt8
  mac : List UInt8 → List UInt8 → List UInt8
  whitelist : Role → Option (List UInt32)
  codec : Codec
  /-- The derived `Debug` text of a value. -/
  debugValue : HalValue → String

structure Timestamp where
  secs : UInt64
  micros : UInt32
  deriving DecidableEq

/-- The answers of the middleware. -/
structure Middleware where
  readSignal : String → Except String (Option HalValue)
  publishSignal : String → HalValue → Timestamp → Except String Unit
  snapshotSignals : String → Except String (List (String × HalValue))

/-- What one iteration takes from outside. Each reading of the clock is a value of its own. -/
structure Env where
  /-- In `verify_wire_token`. -/
  nowToken : UInt64
  /-- In the check of the session's expiry. -/
  nowSession : UInt64
  /-- In `handle_auth`. -/
  nowAuth : UInt64
  /-- The two readings of a write's time stamp. -/
  nowSecs : UInt64
  nowMicros : UInt64
  /-- `SO_PEERCRED`: pid and uid. -/
  peerCred : Except String (Int32 × UInt32)
  /-- `stream.try_clone()`. -/
  tryClone : Except String Unit
  /-- `rand::random()`. -/
  commandId : UInt64
  engine : Engine
  middleware : Middleware
  /-- The `Debug` text of the health status. -/
  healthText : String

/-! ## Tokens -/

/-- The signed part of a token. -/
def tokenBody (sessionId : UInt64) (role : UInt8) (expiresAtMs : UInt64) : List UInt8 :=
  MachineInt.toLeBytes sessionId ++ role :: MachineInt.toLeBytes expiresAtMs

/-- `build_wire_token`. -/
def buildWireToken (cfg : Config) (s : SessionInfo) : List UInt8 :=
  let body := tokenBody s.sessionId s.role.toU8 s.expiresAtMs
  body ++ cfg.mac cfg.secret body ++ List.replicate 15 0

/-- `verify_wire_token`: expiry first, then the signature over the first 17 bytes. -/
def verifyWireToken (cfg : Config) (now : UInt64) (token : List UInt8) : Except String UInt8 :=
  if token.length < tokenWireSize then .error "token too short"
  else
    let role := (token.drop 8).headD 0
    let expiresAtMs : UInt64 := MachineInt.ofLeBytes ((token.drop 9).take 8)
    if now > expiresAtMs then .error "token expired"
    else if cfg.mac cfg.secret (token.take 17) = (token.drop 17).take 32 then .ok role
    else .error "invalid token signature"

/-! ## Methods -/

inductive Method where
  | authRequest | configCommand | readSignal | writeSignal | healthQuery | signalSnapshot | loadProgram
  | loadHalConfig | pause | resume | stepCycle | setBreakpoint | clearBreakpoint | listBreakpoints
  | readRegisters | debugState | prepareSwap | commitSwap | rollbackSwap | subscribeSignal
  | unsubscribeSignal | deployHmiLayout | getHmiLayout
  deriving DecidableEq

namespace Method

def id : Method → UInt8
  | .authRequest => 0x01 | .configCommand => 0x02 | .readSignal => 0x03 | .writeSignal => 0x04
  | .healthQuery => 0x05 | .signalSnapshot => 0x06 | .loadProgram => 0x07 | .loadHalConfig => 0x08
  | .pause => 0x09 | .resume => 0x0A | .stepCycle => 0x0B | .setBreakpoint => 0x0C
  | .clearBreakpoint => 0x0D | .listBreakpoints => 0x0E | .readRegisters => 0x0F | .debugState => 0x10
  | .prepareSwap => 0x11 | .commitSwap => 0x12 | .rollbackSwap => 0x13 | .subscribeSignal => 0x14
  | .unsubscribeSignal => 0x15 | .deployHmiLayout => 0x17 | .getHmiLayout => 0x18

def all : List Method :=
  [.authRequest, .configCommand, .readSignal, .writeSignal, .healthQuery, .signalSnapshot, .loadProgram,
    .loadHalConfig, .pause, .resume, .stepCycle, .setBreakpoint, .clearBreakpoint, .listBreakpoints,
    .readRegisters, .debugState, .prepareSwap, .commitSwap, .rollbackSwap, .subscribeSignal,
    .unsubscribeSignal, .deployHmiLayout, .getHmiLayout]

/-- The arm of the dispatch that a method id selects; `none` is the default arm. -/
def ofId (b : UInt8) : Option Method := all.find? (fun m => m.id == b)

omit [Target] in
theorem id_of_ofId {b : UInt8} {m : Method} (h : ofId b = some m) : m.id = b := by
  have hm := List.find?_some h
  simpa using hm

end Method

/-! ## Outcomes -/

/-- The calls through which a frame changes the engine or the middleware. -/
inductive EngineCall where
  | queueConfig (cmd : ConfigCommand)
  | loadHalProgram (bytes : List UInt8)
  | pause
  | resume
  | stepCycle
  | addBreakpoint (ip : Nat)
  | removeBreakpoint (ip : Nat)
  | prepareSwap (bytes : List UInt8)
  | commitSwap
  | rollbackSwap
  | deployHmiLayout (yaml : List UInt8)
  | publishSignal (name : String) (value : HalValue) (ts : Timestamp)

/-- An edit of the subscription table on behalf of a session. -/
inductive SubsEdit where
  | subscribe (signal : String) (sid : UInt64)
  | unsubscribe (signal : String) (sid : UInt64)
  deriving DecidableEq

/-- How an iteration ends. -/
inductive Flow where
  /-- `continue`: past the clean-up. -/
  | next
  /-- The end of the dispatch: the clean-up runs. -/
  | cleanup
  /-- The thread panics; the connection is gone. -/
  | died
  deriving DecidableEq

/-- The state of a connection between two frames. -/
structure Conn where
  session : Option SessionInfo
  nextSid : UInt64
  deriving DecidableEq

/-- A connection as the accept loop creates it. -/
def Conn.init : Conn := ⟨none, 1⟩

def Conn.role (c : Conn) : Option Role := c.session.map (·.role)

/-- The id the branches use: 0 without a session. -/
def Conn.sid (c : Conn) : UInt64 := (c.session.map (·.sessionId)).getD 0

structure Outcome where
  responses : List Response
  calls : List EngineCall
  edit : Option SubsEdit
  engine : Engine
  conn : Conn
  flow : Flow

namespace Outcome

/-- An iteration that writes one response and changes nothing. -/
def answer (env : Env) (conn : Conn) (r : Response) (flow : Flow) : Outcome :=
  { responses := [r], calls := [], edit := none, engine := env.engine, conn, flow }

/-- An error path that ends in `continue`. -/
def refuse (env : Env) (conn : Conn) (m : UInt8) (msg : String) : Outcome :=
  answer env conn (.error m msg) .next

/-- A branch that reaches the end of the dispatch. -/
def respond (env : Env) (conn : Conn) (r : Response) : Outcome := answer env conn r .cleanup

/-- As `respond`, after one call that left the engine as `engine`. -/
def called (conn : Conn) (call : EngineCall) (engine : Engine) (r : Response) : Outcome :=
  { responses := [r], calls := [call], edit := none, engine, conn, flow := .cleanup }

/-- The thread panics before it writes. -/
def panic (conn : Conn) (calls : List EngineCall) (engine : Engine) : Outcome :=
  { responses := [], calls, edit := none, engine, conn, flow := .died }

end Outcome

open Outcome

/-- The role test at the head of every branch but `AUTH_REQUEST`. -/
def guarded (env : Env) (conn : Conn) (m : Method) (allowed : Bool) (body : Outcome) : Outcome :=
  if allowed then body else refuse env conn m.id "unauthorized"

/-- Bytes of a text. -/
def text (s : String) : List UInt8 := s.toUTF8.toList

/-- The `Ok(()) / Err(e)` tail that the engine calls share. -/
def callResult (env : Env) (conn : Conn) (m : Method) (call : EngineCall) (okText : String)
    (r : Except String Engine) : Outcome :=
  match r with
  | .ok e => called conn call e (.ok m.id (text okText))
  | .error msg => called conn call env.engine (.error m.id msg)

/-! ## The branches -/

/-- `CONFIG_COMMAND` and `LOAD_HAL_CONFIG`: queue a command under its method name. -/
def queueBranch (env : Env) (conn : Conn) (m : Method) (name : String) (payload : List UInt8) : Outcome :=
  let cmd : ConfigCommand := ⟨env.commandId, name, payload⟩
  guarded env conn m (canConfig conn.role) <|
    callResult env conn m (.queueConfig cmd) "queued" (env.engine.queueConfig cmd)

def readSignalBranch (env : Env) (conn : Conn) (payload : List UInt8) : Outcome :=
  guarded env conn .readSignal (canRead conn.role) <|
    match env.middleware.readSignal (lossyString payload) with
    | .ok (some v) => respond env conn (.ok Method.readSignal.id (encodeHalValue v))
    | .ok none => respond env conn (.error Method.readSignal.id "signal not found")
    | .error e => respond env conn (.error Method.readSignal.id e)

/-- The time stamp of a write, from two clock readings. -/
def writeTimestamp (env : Env) : Timestamp :=
  ⟨env.nowSecs / 1000, (env.nowMicros % 1000 * 1000).toUInt32⟩

def writeSignalBranch (env : Env) (conn : Conn) (payload : List UInt8) : Outcome :=
  let m := Method.writeSignal
  guarded env conn m (canWrite conn.role) <|
    if payload.length < 2 then refuse env conn m.id "payload too short"
    else
      let nameLen := MachineInt.leNat (payload.take 2)
      if payload.length < 2 + nameLen then refuse env conn m.id "payload truncated"
      else
        let name := lossyString ((payload.drop 2).take nameLen)
        match decodeHalValue (payload.drop (2 + nameLen)) with
        | .error e => refuse env conn m.id e
        | .ok value =>
          let call := EngineCall.publishSignal name value (writeTimestamp env)
          match env.middleware.publishSignal name value (writeTimestamp env) with
          | .ok () => called conn call env.engine (.ok m.id (text "ok"))
          | .error e => called conn call env.engine (.error m.id e)

def healthQueryBranch (env : Env) (conn : Conn) : Outcome :=
  guarded env conn .healthQuery (canRead conn.role) <|
    respond env conn (.ok Method.healthQuery.id (text env.healthText))

/-- One entry of a snapshot: `[2B name_len][name][value]`. -/
def snapshotEntry (entry : String × HalValue) : List UInt8 :=
  MachineInt.leBytes 2 (text entry.1).length ++ text entry.1 ++ encodeHalValue entry.2

def signalSnapshotBranch (env : Env) (conn : Conn) (payload : List UInt8) : Outcome :=
  let m := Method.signalSnapshot
  guarded env conn m (canRead conn.role) <|
    match env.middleware.snapshotSignals (lossyString payload) with
    | .ok signals =>
      respond env conn (.ok m.id (MachineInt.leBytes 2 signals.length ++ signals.flatMap snapshotEntry))
    | .error e => respond env conn (.error m.id e)

def loadProgramBranch (cfg : Config) (env : Env) (conn : Conn) (payload : List UInt8) : Outcome :=
  let m := Method.loadProgram
  guarded env conn m (canConfig conn.role) <|
    match env.engine.loadHalProgram cfg.codec payload with
    | (e, some (.ok ())) => called conn (.loadHalProgram payload) e (.ok m.id (text "loaded"))
    | (e, some (.error msg)) => called conn (.loadHalProgram payload) e (.error m.id msg)
    | (e, none) => panic conn [.loadHalProgram payload] e

/-- `PAUSE`, `RESUME` and `STEP_CYCLE`: a call that cannot fail. -/
def flagBranch (env : Env) (conn : Conn) (m : Method) (call : EngineCall) (f : Engine → Engine)
    (okText : String) : Outcome :=
  guarded env conn m (canConfig conn.role) <|
    called conn call (f env.engine) (.ok m.id (text okText))

/-- `u32::from_be_bytes` of the first four bytes. -/
def beU32 (payload : List UInt8) : Nat := MachineInt.leNat (payload.take 4).reverse

/-- `SET_BREAKPOINT` and `CLEAR_BREAKPOINT`. -/
def breakpointBranch (env : Env) (conn : Conn) (m : Method) (call : Nat → EngineCall)
    (f : Executor → Nat → Executor) (payload : List UInt8) : Outcome :=
  guarded env conn m (canConfig conn.role) <|
    if payload.length < 4 then refuse env conn m.id "need 4 bytes IP"
    else if env.engine.halExecutorPoisoned then panic conn [] env.engine
    else
      let ip := beU32 payload
      match env.engine.halExecutor with
      | some _ => called conn (call ip) (env.engine.withExecutor (f · ip)) (.ok m.id (text "ok"))
      | none => respond env conn (.error m.id "no program loaded")

def listBreakpointsBranch (env : Env) (conn : Conn) : Outcome :=
  let m := Method.listBreakpoints
  guarded env conn m (canRead conn.role) <|
    if env.engine.halExecutorPoisoned then panic conn [] env.engine
    else match env.engine.halExecutor with
      | some ex => respond env conn (.ok m.id (text (",".intercalate (ex.listBreakpoints.map toString))))
      | none => refuse env conn m.id "no program loaded"

/-- Reading a register outside the file panics in the VM. -/
def readRegistersBranch (cfg : Config) (env : Env) (conn : Conn) (payload : List UInt8) : Outcome :=
  let m := Method.readRegisters
  guarded env conn m (canRead conn.role) <|
    match payload with
    | [] => refuse env conn m.id "need register index"
    | idx :: _ =>
      if env.engine.halExecutorPoisoned then panic conn [] env.engine
      else match env.engine.halExecutor with
        | some ex =>
          match ex.vm.readRegister idx with
          | some v =>
            respond env conn (.ok m.id (text ("r" ++ toString idx.toNat ++ "=" ++ cfg.debugValue v)))
          | none => panic conn [] env.engine
        | none => refuse env conn m.id "no program loaded"

/-- The JSON text of `DEBUG_STATE`. -/
def debugStateJson (debugMode paused : Bool) (bps : List Nat) (traceLen : Nat) : String :=
  "\x7b\"debug_mode\":" ++ toString debugMode ++ ",\"paused\":" ++ toString paused ++ ",\"breakpoints\":[" ++
    ", ".intercalate (bps.map toString) ++ "],\"trace_len\":" ++ toString traceLen ++ "\x7d"

def debugStateBranch (env : Env) (conn : Conn) : Outcome :=
  let m := Method.debugState
  guarded env conn m (canRead conn.role) <|
    if env.engine.halExecutorPoisoned then panic conn [] env.engine
    else
      let json := match env.engine.halExecutor with
        | some ex => debugStateJson ex.debugState.debugMode env.engine.paused ex.listBreakpoints
            ex.debugState.traceBuffer.length
        | none => debugStateJson false env.engine.paused [] 0
      respond env conn (.ok m.id (text json))

def prepareSwapBranch (cfg : Config) (env : Env) (conn : Conn) (payload : List UInt8) : Outcome :=
  guarded env conn .prepareSwap (canConfig conn.role) <|
    callResult env conn .prepareSwap (.prepareSwap payload) "ready" (env.engine.prepareSwap cfg.codec payload)

def commitSwapBranch (env : Env) (conn : Conn) : Outcome :=
  guarded env conn .commitSwap (canConfig conn.role) <|
    callResult env conn .commitSwap .commitSwap "committed" env.engine.commitSwap

def rollbackSwapBranch (env : Env) (conn : Conn) : Outcome :=
  guarded env conn .rollbackSwap (canConfig conn.role) <|
    callResult env conn .rollbackSwap .rollbackSwap "cancelled" (.ok env.engine.rollbackSwap)

def deployHmiLayoutBranch (cfg : Config) (env : Env) (conn : Conn) (payload : List UInt8) : Outcome :=
  let m := Method.deployHmiLayout
  guarded env conn m (canConfig conn.role) <|
    if payload.isEmpty then refuse env conn m.id "empty payload"
    else match env.engine.deployHmiLayout cfg.codec payload with
      | .ok (e, generation) => called conn (.deployHmiLayout payload) e (.ok m.id (MachineInt.toLeBytes generation))
      | .error msg => called conn (.deployHmiLayout payload) env.engine (.error m.id msg)

def getHmiLayoutBranch (env : Env) (conn : Conn) : Outcome :=
  let m := Method.getHmiLayout
  guarded env conn m (canRead conn.role) <|
    match env.engine.hmiLayout with
    | some (yaml, generation) => respond env conn (.ok m.id (MachineInt.toLeBytes generation ++ yaml))
    | none => respond env conn (.error m.id "no layout deployed")

def subscribeBranch (env : Env) (conn : Conn) (payload : List UInt8) : Outcome :=
  let m := Method.subscribeSignal
  guarded env conn m (canRead conn.role) <|
    let signal := lossyString payload
    if signal = "" then refuse env conn m.id "empty signal name"
    else match env.tryClone with
      | .ok () =>
        { respond env conn (.ok m.id (text "subscribed")) with edit := some (.subscribe signal conn.sid) }
      | .error e => respond env conn (.error m.id e)

def unsubscribeBranch (env : Env) (conn : Conn) (payload : List UInt8) : Outcome :=
  let m := Method.unsubscribeSignal
  guarded env conn m (canRead conn.role) <|
    let signal := lossyString payload
    if signal = "" then refuse env conn m.id "empty signal name"
    else
      { respond env conn (.ok m.id (text "unsubscribed")) with edit := some (.unsubscribe signal conn.sid) }

/-- Two lower-case hexadecimal digits. -/
def hexByte (b : UInt8) : String :=
  String.ofList [Nat.digitChar (b.toNat / 16), Nat.digitChar (b.toNat % 16)]

def unknownMethodBranch (env : Env) (conn : Conn) (m : UInt8) : Outcome :=
  respond env conn (.error m ("unknown method_id: 0x" ++ hexByte m))

/-! ## Authentication -/

/-- The checks of `handle_auth`; `.ok role` is the role the client is admitted with. -/
def authCheck (cfg : Config) (env : Env) (payload : List UInt8) : Except String Role :=
  if payload.length < 5 then .error "need 5 bytes (pid + role)"
  else
    let clientPid := MachineInt.leNat (payload.take 4)
    let roleByte := (payload.drop 4).headD 0
    match Role.ofU8 roleByte with
    | none => .error ("unknown role byte: " ++ toString roleByte.toNat)
    | some role =>
      match env.peerCred with
      | .error e => .error ("SO_PEERCRED: " ++ e)
      | .ok (pid, uid) =>
        if pid.toUInt32.toNat ≠ clientPid then
          .error ("pid mismatch: claimed " ++ toString clientPid ++ ", actual " ++ toString pid.toInt)
        else if !isUidAllowed cfg.whitelist role uid then
          .error ("uid " ++ toString uid.toNat ++ " not allowed for " ++ role.name)
        else .ok role

def ttlMs (role : Role) : UInt64 := if role = .supervisor then agentTokenTtlMs else defaultTokenTtlMs

/-- The `AUTH_REQUEST` branch with `handle_auth` inlined. `handle_auth` writes the token response itself and
    the branch writes it once more. The sum of clock and lifetime panics where overflow is checked. -/
def authBranch (cfg : Config) (env : Env) (conn : Conn) (payload : List UInt8) : Outcome :=
  let m := Method.authRequest
  match authCheck cfg env payload with
  | .error msg => respond env conn (.error m.id msg)
  | .ok role =>
    let nextSid := conn.nextSid + 1
    match MachineInt.add env.nowAuth (ttlMs role) with
    | none => panic { conn with nextSid } [] env.engine
    | some expiresAtMs =>
      let session : SessionInfo := ⟨conn.nextSid, role, expiresAtMs⟩
      let token := buildWireToken cfg session
      { responses := [.ok m.id token, .ok m.id token], calls := [], edit := none, engine := env.engine,
        conn := ⟨some session, nextSid⟩, flow := .cleanup }

/-! ## The loop body -/

/-- The `match method_id` of the loop. -/
def dispatch (cfg : Config) (env : Env) (conn : Conn) (f : Frame) : Outcome :=
  match Method.ofId f.methodId with
  | some .authRequest => authBranch cfg env conn f.payload
  | some .configCommand => queueBranch env conn .configCommand "configureComponent" f.payload
  | some .readSignal => readSignalBranch env conn f.payload
  | some .writeSignal => writeSignalBranch env conn f.payload
  | some .healthQuery => healthQueryBranch env conn
  | some .signalSnapshot => signalSnapshotBranch env conn f.payload
  | some .loadProgram => loadProgramBranch cfg env conn f.payload
  | some .loadHalConfig => queueBranch env conn .loadHalConfig "loadHalConfig" f.payload
  | some .pause => flagBranch env conn .pause .pause Engine.pause "paused"
  | some .resume => flagBranch env conn .resume .resume Engine.resume "resumed"
  | some .stepCycle => flagBranch env conn .stepCycle .stepCycle Engine.stepCycle "stepped"
  | some .setBreakpoint =>
    breakpointBranch env conn .setBreakpoint .addBreakpoint Executor.addBreakpoint f.payload
  | some .clearBreakpoint =>
    breakpointBranch env conn .clearBreakpoint .removeBreakpoint Executor.removeBreakpoint f.payload
  | some .listBreakpoints => listBreakpointsBranch env conn
  | some .readRegisters => readRegistersBranch cfg env conn f.payload
  | some .debugState => debugStateBranch env conn
  | some .prepareSwap => prepareSwapBranch cfg env conn f.payload
  | some .commitSwap => commitSwapBranch env conn
  | some .rollbackSwap => rollbackSwapBranch env conn
  | some .deployHmiLayout => deployHmiLayoutBranch cfg env conn f.payload
  | some .getHmiLayout => getHmiLayoutBranch env conn
  | some .subscribeSignal => subscribeBranch env conn f.payload
  | some .unsubscribeSignal => unsubscribeBranch env conn f.payload
  | none => unknownMethodBranch env conn f.methodId

/-- The loop body for one frame: the check that a session imposes, then the dispatch. -/
def handleFrame (cfg : Config) (env : Env) (conn : Conn) (f : Frame) : Outcome :=
  match conn.session with
  | none => dispatch cfg env conn f
  | some sess =>
    if f.methodId = Method.authRequest.id then
      refuse env conn f.methodId "already authenticated"
    else match verifyWireToken cfg env.nowToken f.token with
      | .error e => refuse env conn f.methodId ("auth: " ++ e)
      | .ok roleByte =>
        if Role.ofU8 roleByte ≠ some sess.role then refuse env conn f.methodId "role mismatch"
        else if env.nowSession > sess.expiresAtMs then
          refuse env { conn with session := none } f.methodId "token expired"
        else dispatch cfg env conn f

end Audesys.Runtime.Ipc

/-! ## A default server -/

namespace Audesys.Runtime.Ipc

open Audesys.Hal

local instance releaseConnection : Target := host false

/-- A server with the default whitelist. -/
def defaultConfig (mac : List UInt8 → List UInt8 → List UInt8) : Config where
  secret := List.replicate 32 7
  mac := mac
  whitelist := defaultWhitelist
  codec := ⟨fun _ => .error "io error: unexpected end of file", fun _ => .ok ()⟩
  debugValue _ := ""

/-- A signature function of the right length, for runs that do not depend on the signature. -/
def constantMac (_ _ : List UInt8) : List UInt8 := List.replicate 32 0xAB

/-- A quiet controller at time `now`, seen by process 4242 of user 1000. -/
def quietEnv (now : UInt64) : Env where
  nowToken := now
  nowSession := now
  nowAuth := now
  nowSecs := now
  nowMicros := now
  peerCred := .ok (4242, 1000)
  tryClone := .ok ()
  commandId := 0
  engine := .new
  middleware := ⟨fun _ => .ok none, fun _ _ _ => .ok (), fun _ => .ok []⟩
  healthText := "Healthy"

/-- `AUTH_REQUEST` of process 4242 for the given role. -/
def authFrame (role : Role) : Frame := ⟨List.replicate 64 0, Method.authRequest.id, [0x92, 0x10, 0, 0, role.toU8]⟩

end Audesys.Runtime.Ipc
