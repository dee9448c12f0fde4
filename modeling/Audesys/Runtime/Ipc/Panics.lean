import Audesys.Runtime.Ipc.Dispatch

/-!
# `Runtime.Ipc.Panics` — the frames that kill their connection's thread

The branches check every payload before they slice it; what is left are the calls into the executor. Reading a
register hands the index of the client to the VM, whose accessor asserts that it is below sixteen, and every
branch that takes the executor's lock unwraps it, which fails once a thread has panicked while it wrote under
the lock. `Method.Panics` lists these cases, branch by branch.
-/

namespace Audesys.Runtime.Ipc

open Audesys.Hal

variable [Target]

/-! ## The branches -/

/-- The branch panics on the payload, past its role test. -/
def Method.Panics (cfg : Config) (engine : Engine) (payload : List UInt8) : Method → Prop
  | .readRegisters => ∃ idx rest, payload = idx :: rest ∧ (engine.halExecutorPoisoned = true ∨
      engine.halExecutor.isSome = true ∧ registerCount ≤ idx.toNat)
  | .setBreakpoint | .clearBreakpoint => 4 ≤ payload.length ∧ engine.halExecutorPoisoned = true
  | .listBreakpoints | .debugState => engine.halExecutorPoisoned = true
  | .loadProgram => engine.halExecutorPoisoned = true ∧
      ∃ program, cfg.codec.deserialize payload = .ok program ∧ program.isWellFormed = true
  | _ => False

section
variable {cfg : Config} {env : Env} {conn : Conn} {payload : List UInt8}

/-- Behind a role test. -/
theorem guarded_died {m : Method} {allowed : Bool} {body : Outcome} :
    (guarded env conn m allowed body).flow = .died ↔ allowed = true ∧ body.flow = .died := by
  unfold guarded
  cases allowed with
  | true => exact ⟨fun h => ⟨rfl, h⟩, And.right⟩
  | false => exact ⟨nofun, fun h => nomatch h.1⟩

theorem callResult_lives {m : Method} {call : EngineCall} {okText : String} {r : Except String Engine} :
    ¬ (callResult env conn m call okText r).flow = .died := by
  unfold callResult
  split <;> exact nofun

theorem writeSignalBranch_lives : ¬ (writeSignalBranch env conn payload).flow = .died := by
  rw [writeSignalBranch, guarded_died]
  rintro ⟨_, h⟩
  -- the length tests stand in front of every slice
  split at h
  · cases h
  · simp only at h
    split at h
    · cases h
    · split at h
      · cases h
      · split at h <;> cases h

theorem loadProgramBranch_died : (loadProgramBranch cfg env conn payload).flow = .died ↔
    canConfig conn.role = true ∧ Method.loadProgram.Panics cfg env.engine payload := by
  rw [loadProgramBranch, guarded_died]
  refine and_congr_right fun _ => ?_
  unfold Engine.loadHalProgram Engine.validate Method.Panics
  cases hd : cfg.codec.deserialize payload with
  | error msg => exact ⟨(nomatch ·), fun ⟨_, _, h, _⟩ => nomatch h⟩
  | ok program =>
    cases hw : program.isWellFormed with
    | false =>
      simp only [hw, Bool.false_eq_true, if_false]
      refine ⟨(nomatch ·), fun ⟨_, _, h, hw'⟩ => ?_⟩
      cases h
      rw [hw] at hw'
      cases hw'
    | true =>
      cases hp : env.engine.halExecutorPoisoned with
      | false =>
        simp only [hw, if_true, Bool.false_eq_true, if_false]
        exact ⟨(nomatch ·), fun h => nomatch h.1⟩
      | true =>
        simp only [hw, if_true]
        exact ⟨fun _ => ⟨trivial, program, rfl, hw⟩, fun _ => rfl⟩

theorem breakpointBranch_died {m : Method} {call : Nat → EngineCall} {f : Executor → Nat → Executor} :
    (breakpointBranch env conn m call f payload).flow = .died ↔
      canConfig conn.role = true ∧ 4 ≤ payload.length ∧ env.engine.halExecutorPoisoned = true := by
  rw [breakpointBranch, guarded_died]
  refine and_congr_right fun _ => ?_
  by_cases hlen : payload.length < 4
  · rw [if_pos hlen]
    exact ⟨nofun, fun h => absurd h.1 (by omega)⟩
  · rw [if_neg hlen]
    cases hp : env.engine.halExecutorPoisoned with
    | true => exact ⟨fun _ => ⟨by omega, rfl⟩, fun _ => rfl⟩
    | false =>
      refine ⟨fun h => ?_, fun h => nomatch h.2⟩
      simp only [Bool.false_eq_true, if_false] at h
      split at h <;> cases h

theorem listBreakpointsBranch_died : (listBreakpointsBranch env conn).flow = .died ↔
    canRead conn.role = true ∧ env.engine.halExecutorPoisoned = true := by
  rw [listBreakpointsBranch, guarded_died]
  refine and_congr_right fun _ => ?_
  cases hp : env.engine.halExecutorPoisoned with
  | true => exact ⟨fun _ => rfl, fun _ => rfl⟩
  | false =>
    refine ⟨fun h => ?_, nofun⟩
    simp only [Bool.false_eq_true, if_false] at h
    split at h <;> cases h

theorem debugStateBranch_died : (debugStateBranch env conn).flow = .died ↔
    canRead conn.role = true ∧ env.engine.halExecutorPoisoned = true := by
  rw [debugStateBranch, guarded_died]
  refine and_congr_right fun _ => ?_
  cases hp : env.engine.halExecutorPoisoned with
  | true => exact ⟨fun _ => rfl, fun _ => rfl⟩
  | false => exact ⟨nofun, nofun⟩

theorem readRegister_isNone {vm : Vm} {idx : UInt8} : vm.readRegister idx = none ↔ registerCount ≤ idx.toNat := by
  unfold Vm.readRegister
  split
  · exact ⟨nofun, fun h => by omega⟩
  · exact ⟨fun _ => by omega, fun _ => rfl⟩

theorem readRegistersBranch_died : (readRegistersBranch cfg env conn payload).flow = .died ↔
    canRead conn.role = true ∧ Method.readRegisters.Panics cfg env.engine payload := by
  unfold readRegistersBranch
  simp only [guarded_died]
  refine and_congr_right fun _ => ?_
  cases payload with
  | nil => exact ⟨nofun, fun ⟨_, _, h, _⟩ => nomatch h⟩
  | cons idx rest =>
    have hpanics : Method.readRegisters.Panics cfg env.engine (idx :: rest) ↔
        (env.engine.halExecutorPoisoned = true ∨
          env.engine.halExecutor.isSome = true ∧ registerCount ≤ idx.toNat) := by
      constructor
      · rintro ⟨_, _, heq, h⟩
        cases heq
        exact h
      · exact fun h => ⟨idx, rest, rfl, h⟩
    rw [hpanics]
    cases hp : env.engine.halExecutorPoisoned with
    | true => exact ⟨fun _ => .inl rfl, fun _ => rfl⟩
    | false =>
      cases hex : env.engine.halExecutor with
      | none => exact ⟨nofun, fun h => nomatch h.resolve_left nofun⟩
      | some ex =>
        -- the assertion of the VM's accessor
        cases hread : ex.vm.readRegister idx with
        | none =>
          simp only [hread, Bool.false_eq_true, if_false]
          exact ⟨fun _ => .inr ⟨rfl, readRegister_isNone.1 hread⟩, fun _ => rfl⟩
        | some v =>
          simp only [hread, Bool.false_eq_true, if_false]
          refine ⟨(nomatch ·), fun h => ?_⟩
          have hnone : ex.vm.readRegister idx = none := readRegister_isNone.2 (h.resolve_left nofun).2
          rw [hread] at hnone
          cases hnone

/-! ## The dispatch -/

/-- **The panics of the dispatch**, for a frame that is no `AUTH_REQUEST`. -/
theorem dispatch_died {f : Frame} (hauth : f.methodId ≠ Method.authRequest.id) :
    (dispatch cfg env conn f).flow = .died ↔
      ∃ m, Method.ofId f.methodId = some m ∧ m.permits conn.role = true ∧ m.Panics cfg env.engine f.payload := by
  have hmethod : ∀ {m : Method} {o : Outcome},
      (o.flow = .died ↔ m.permits conn.role = true ∧ m.Panics cfg env.engine f.payload) →
      (o.flow = .died ↔ ∃ m', some m = some m' ∧ m'.permits conn.role = true ∧
        m'.Panics cfg env.engine f.payload) := by
    intro m o h
    rw [h]
    constructor
    · exact fun hp => ⟨m, rfl, hp⟩
    · rintro ⟨m', heq, hp⟩
      cases heq
      exact hp
  -- a branch without a panic of its own
  have hlives : ∀ (m : Method) {body : Outcome}, (m.Panics cfg env.engine f.payload → False) →
      ¬ body.flow = .died → ((guarded env conn m (m.permits conn.role) body).flow = .died ↔
        m.permits conn.role = true ∧ m.Panics cfg env.engine f.payload) := by
    intro m body hno hbody
    rw [guarded_died]
    exact ⟨fun h => absurd h.2 hbody, fun h => (hno h.2).elim⟩
  unfold dispatch
  cases hm : Method.ofId f.methodId with
  | none => exact ⟨(nomatch ·), fun ⟨_, h, _⟩ => nomatch h⟩
  | some m =>
    refine hmethod ?_
    cases m with
    | authRequest => exact absurd (Method.id_of_ofId hm).symm hauth
    | configCommand => exact hlives .configCommand id callResult_lives
    | readSignal =>
      refine hlives .readSignal id ?_
      split <;> exact nofun
    | writeSignal => exact ⟨fun h => absurd h writeSignalBranch_lives, fun h => h.2.elim⟩
    | healthQuery => exact hlives .healthQuery id nofun
    | signalSnapshot =>
      refine hlives .signalSnapshot id ?_
      split <;> exact nofun
    | loadProgram => exact loadProgramBranch_died
    | loadHalConfig => exact hlives .loadHalConfig id callResult_lives
    | pause => exact hlives .pause id nofun
    | resume => exact hlives .resume id nofun
    | stepCycle => exact hlives .stepCycle id nofun
    | setBreakpoint => exact breakpointBranch_died
    | clearBreakpoint => exact breakpointBranch_died
    | listBreakpoints => exact listBreakpointsBranch_died
    | readRegisters => exact readRegistersBranch_died
    | debugState => exact debugStateBranch_died
    | prepareSwap => exact hlives .prepareSwap id callResult_lives
    | commitSwap => exact hlives .commitSwap id callResult_lives
    | rollbackSwap => exact hlives .rollbackSwap id callResult_lives
    | subscribeSignal =>
      refine hlives .subscribeSignal id ?_
      simp only
      split
      · exact nofun
      · split <;> exact nofun
    | unsubscribeSignal =>
      refine hlives .unsubscribeSignal id ?_
      simp only
      split <;> exact nofun
    | deployHmiLayout =>
      refine hlives .deployHmiLayout id ?_
      split
      · exact nofun
      · split <;> exact nofun
    | getHmiLayout =>
      refine hlives .getHmiLayout id ?_
      split <;> exact nofun

end

/-! ## The loop body -/

/-- The iteration reaches its response: one, under the frame's method id, and the thread lives. -/
def Responds (f : Frame) (o : Outcome) : Prop := o.responses.map (·.methodId) = [f.methodId] ∧ o.flow ≠ .died

/-- The frame is admitted to a branch that its session's role permits and that panics on it. -/
def Fatal (cfg : Config) (env : Env) (conn : Conn) (f : Frame) : Prop :=
  Admitted cfg env conn f ∧
    ∃ m, Method.ofId f.methodId = some m ∧ m.permits conn.role = true ∧ m.Panics cfg env.engine f.payload

/-- **No panic but the executor's.** In every session, a frame is answered unless it is fatal. -/
theorem responds_iff (cfg : Config) (env : Env) (sess : SessionInfo) (nextSid : UInt64) (f : Frame) :
    Responds f (handleFrame cfg env ⟨some sess, nextSid⟩ f) ↔ ¬ Fatal cfg env ⟨some sess, nextSid⟩ f := by
  have hno : NotOpening cfg env ⟨some sess, nextSid⟩ f := nofun
  have hanswers := handleFrame_answers hno
  -- a living thread has answered
  have hresponds : Responds f (handleFrame cfg env ⟨some sess, nextSid⟩ f) ↔
      (handleFrame cfg env ⟨some sess, nextSid⟩ f).flow ≠ .died :=
    ⟨And.right, fun h => ⟨hanswers.resolve_right fun hd => h hd.1, h⟩⟩
  rw [hresponds]
  refine not_congr ?_
  rcases handleFrame_cases hno with href | ⟨hadm, ho, _⟩ | ⟨⟨sess', hs', ht, hexp⟩, ho⟩
  · obtain ⟨msg, flow, hflow, ho⟩ := href.answered
    rw [ho]
    exact ⟨fun h => absurd h hflow, fun h => absurd h.1 href.notAdmitted⟩
  · have hauth : f.methodId ≠ Method.authRequest.id := by
      obtain ⟨_, _, ht, _⟩ := hadm
      exact ht.notAuth
    rw [ho, dispatch_died hauth]
    exact ⟨fun h => ⟨hadm, h⟩, And.right⟩
  · rw [ho]
    refine ⟨nofun, fun ⟨⟨sess'', hs'', _, hvalid⟩, _⟩ => ?_⟩
    cases hs'
    cases hs''
    exact absurd hexp (UInt64.not_lt.2 hvalid)

end Audesys.Runtime.Ipc

namespace Audesys.Runtime.Ipc

open Audesys.Hal

local instance releasePanics : Target := host false

/-- An operator's session. -/
def operatorSession : SessionInfo := ⟨1, .operator, 3600000⟩

/-- A controller with a loaded program. -/
def loadedEnv : Env :=
  { quietEnv 0 with engine := { Engine.new with halExecutor := some (.new (.new "p" [.halt])) } }

/-- `READ_REGISTERS` of the given index. -/
def readRegisterFrame (idx : UInt8) : Frame :=
  ⟨buildWireToken (defaultConfig constantMac) operatorSession, Method.readRegisters.id, [idx]⟩

/-- There is no register 16, and the thread that is asked for it dies. -/
theorem responds_fails :
    ¬ Responds (readRegisterFrame 16)
      (handleFrame (defaultConfig constantMac) loadedEnv ⟨some operatorSession, 2⟩ (readRegisterFrame 16)) := by
  rintro ⟨_, hflow⟩
  exact hflow (by decide)

end Audesys.Runtime.Ipc
