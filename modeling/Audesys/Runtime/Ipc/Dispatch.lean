import Audesys.Runtime.Ipc.Connection

/-!
# `Runtime.Ipc.Dispatch` — what one iteration can do

The specification of `handleFrame` that the later modules use instead of its code. `Branch` says what every
arm of the dispatch has in common: it answers once under its own method id (or its thread dies), leaves the
connection as it was, makes a mutating call only for a role that may make it, and edits the subscription
table only under the connection's own session id. `handleFrame_cases` then lists the four things an
iteration can be.
-/

namespace Audesys.Runtime.Ipc

open Audesys.Hal

variable [Target]
variable {conn : Conn} {cfg : Config} {env : Env} {f : Frame}

/-! ## The common contract of the branches -/

/-- The iteration wrote one response, under method id `m`, or the thread died without writing. -/
def Answers (m : UInt8) (o : Outcome) : Prop :=
  o.responses.map (·.methodId) = [m] ∨ o.flow = .died ∧ o.responses = []

/-- The role test that guards a call. -/
def EngineCall.permits : EngineCall → Option Role → Bool
  | .publishSignal _ _ _ => canWrite
  | _ => canConfig

/-- An edit made under the id of the connection's session. -/
def SubsEdit.Owned (conn : Conn) (e : SubsEdit) : Prop :=
  ∃ sess signal, conn.session = some sess ∧
    (e = .subscribe signal sess.sessionId ∨ e = .unsubscribe signal sess.sessionId)

/-- What an arm of the dispatch other than the admission of a client does. -/
structure Branch (conn : Conn) (m : UInt8) (o : Outcome) : Prop where
  answers : Answers m o
  conn_eq : o.conn = conn
  calls : ∀ call ∈ o.calls, call.permits conn.role = true
  edit : ∀ e, o.edit = some e → o.flow = .cleanup ∧ e.Owned conn

namespace Branch

variable {m : UInt8}

theorem refuse {msg : String} : Branch conn m (Outcome.refuse env conn m msg) :=
  ⟨.inl rfl, rfl, nofun, nofun⟩

theorem respond {r : Response} (h : r.methodId = m) : Branch conn m (Outcome.respond env conn r) :=
  ⟨.inl (by simp [Outcome.respond, Outcome.answer, h]), rfl, nofun, nofun⟩

theorem called {call : EngineCall} {e : Engine} {r : Response} (h : r.methodId = m)
    (hcall : call.permits conn.role = true) : Branch conn m (Outcome.called conn call e r) :=
  ⟨.inl (by simp [Outcome.called, h]), rfl, by simpa [Outcome.called] using hcall, nofun⟩

theorem panic {calls : List EngineCall} {e : Engine} (hcalls : ∀ call ∈ calls, call.permits conn.role = true) :
    Branch conn m (Outcome.panic conn calls e) :=
  ⟨.inr ⟨rfl, rfl⟩, rfl, hcalls, nofun⟩

theorem guarded {k : Method} {allowed : Bool} {body : Outcome} (h : allowed = true → Branch conn k.id body) :
    Branch conn k.id (guarded env conn k allowed body) := by
  unfold Ipc.guarded
  split
  · rename_i ha
    exact h ha
  · exact refuse

theorem callResult {k : Method} {call : EngineCall} {okText : String} {r : Except String Engine}
    (hcall : call.permits conn.role = true) : Branch conn k.id (callResult env conn k call okText r) := by
  unfold Ipc.callResult
  split
  · exact called rfl hcall
  · exact called rfl hcall

end Branch

omit [Target] in
/-- A reader has a session. -/
theorem session_of_canRead (h : canRead conn.role = true) :
    ∃ sess, conn.session = some sess ∧ conn.sid = sess.sessionId := by
  cases hs : conn.session with
  | none => simp [canRead, Conn.role, hs] at h
  | some sess => exact ⟨sess, rfl, by simp [Conn.sid, hs]⟩

section Branches

variable (cfg : Config) (env : Env) (conn : Conn) (payload : List UInt8)

theorem writeSignalBranch_spec : Branch conn Method.writeSignal.id (writeSignalBranch env conn payload) := by
  refine .guarded fun hw => ?_
  split
  · exact .refuse
  · simp only
    split
    · exact .refuse
    · split
      · exact .refuse
      · split
        · exact .called rfl hw
        · exact .called rfl hw

theorem loadProgramBranch_spec :
    Branch conn Method.loadProgram.id (loadProgramBranch cfg env conn payload) := by
  refine .guarded fun hc => ?_
  split
  · exact .called rfl hc
  · exact .called rfl hc
  · refine .panic ?_
    rintro call hmem
    cases List.mem_singleton.1 hmem
    exact hc

theorem breakpointBranch_spec (k : Method) (call : Nat → EngineCall) (f : Executor → Nat → Executor)
    (hcall : ∀ ip, (call ip).permits = canConfig) :
    Branch conn k.id (breakpointBranch env conn k call f payload) := by
  refine .guarded fun hc => ?_
  split
  · exact .refuse
  · split
    · exact .panic nofun
    · simp only
      split
      · exact .called rfl (by rw [hcall]; exact hc)
      · exact .respond rfl

theorem readRegistersBranch_spec :
    Branch conn Method.readRegisters.id (readRegistersBranch cfg env conn payload) := by
  refine .guarded fun _ => ?_
  split
  · exact .refuse
  · split
    · exact .panic nofun
    · split
      · split
        · exact .respond rfl
        · exact .panic nofun
      · exact .refuse

theorem deployHmiLayoutBranch_spec :
    Branch conn Method.deployHmiLayout.id (deployHmiLayoutBranch cfg env conn payload) := by
  refine .guarded fun hc => ?_
  split
  · exact .refuse
  · split
    · exact .called rfl hc
    · exact .called rfl hc

theorem subscribeBranch_spec : Branch conn Method.subscribeSignal.id (subscribeBranch env conn payload) := by
  refine .guarded fun hr => ?_
  obtain ⟨sess, hs, hsid⟩ := session_of_canRead hr
  simp only
  split
  · exact .refuse
  · split
    · refine ⟨.inl rfl, rfl, nofun, ?_⟩
      rintro e he
      cases he
      exact ⟨rfl, sess, _, hs, .inl (by rw [hsid])⟩
    · exact .respond rfl

theorem unsubscribeBranch_spec :
    Branch conn Method.unsubscribeSignal.id (unsubscribeBranch env conn payload) := by
  refine .guarded fun hr => ?_
  obtain ⟨sess, hs, hsid⟩ := session_of_canRead hr
  simp only
  split
  · exact .refuse
  · refine ⟨.inl rfl, rfl, nofun, ?_⟩
    rintro e he
    cases he
    exact ⟨rfl, sess, _, hs, .inr (by rw [hsid])⟩

end Branches

/-! ## The dispatch -/

/-- The frame is an `AUTH_REQUEST` that `handle_auth` admits. -/
def AuthAccepted (cfg : Config) (env : Env) (f : Frame) : Prop :=
  f.methodId = Method.authRequest.id ∧ ∃ role, authCheck cfg env f.payload = .ok role

theorem dispatch_spec (h : ¬ AuthAccepted cfg env f) : Branch conn f.methodId (dispatch cfg env conn f) := by
  unfold dispatch
  cases hm : Method.ofId f.methodId with
  | none => exact .respond rfl
  | some m =>
    have hid : m.id = f.methodId := Method.id_of_ofId hm
    rw [← hid]
    cases m with
    | authRequest =>
      simp only [authBranch]
      -- an accepted authentication is excluded
      split
      · exact .respond rfl
      · rename_i role hrole
        exact absurd ⟨hid.symm, role, hrole⟩ h
    | configCommand => exact .guarded fun hc => .callResult hc
    | readSignal => refine .guarded fun _ => ?_; split <;> exact .respond rfl
    | writeSignal => exact writeSignalBranch_spec env conn f.payload
    | healthQuery => exact .guarded fun _ => .respond rfl
    | signalSnapshot => refine .guarded fun _ => ?_; split <;> exact .respond rfl
    | loadProgram => exact loadProgramBranch_spec cfg env conn f.payload
    | loadHalConfig => exact .guarded fun hc => .callResult hc
    | pause => exact .guarded fun hc => .called rfl hc
    | resume => exact .guarded fun hc => .called rfl hc
    | stepCycle => exact .guarded fun hc => .called rfl hc
    | setBreakpoint => exact breakpointBranch_spec env conn f.payload _ _ _ fun _ => rfl
    | clearBreakpoint => exact breakpointBranch_spec env conn f.payload _ _ _ fun _ => rfl
    | listBreakpoints =>
      refine .guarded fun _ => ?_
      split
      · exact .panic nofun
      · split
        · exact .respond rfl
        · exact .refuse
    | readRegisters => exact readRegistersBranch_spec cfg env conn f.payload
    | debugState =>
      refine .guarded fun _ => ?_
      split
      · exact .panic nofun
      · exact .respond rfl
    | prepareSwap => exact .guarded fun hc => .callResult hc
    | commitSwap => exact .guarded fun hc => .callResult hc
    | rollbackSwap => exact .guarded fun hc => .callResult hc
    | subscribeSignal => exact subscribeBranch_spec env conn f.payload
    | unsubscribeSignal => exact unsubscribeBranch_spec env conn f.payload
    | deployHmiLayout => exact deployHmiLayoutBranch_spec cfg env conn f.payload
    | getHmiLayout => refine .guarded fun _ => ?_; split <;> exact .respond rfl

/-- The role test of a branch. -/
def Method.permits : Method → Option Role → Bool
  | .authRequest => fun _ => true
  | .writeSignal => canWrite
  | .readSignal | .healthQuery | .signalSnapshot | .listBreakpoints | .readRegisters | .debugState
  | .subscribeSignal | .unsubscribeSignal | .getHmiLayout => canRead
  | .configCommand | .loadProgram | .loadHalConfig | .pause | .resume | .stepCycle | .setBreakpoint
  | .clearBreakpoint | .prepareSwap | .commitSwap | .rollbackSwap | .deployHmiLayout => canConfig

omit [Target] in
theorem Method.permits_none {m : Method} (h : m ≠ .authRequest) : m.permits none = false := by
  cases m <;> first | rfl | exact absurd rfl h

/-- A branch whose role test fails does nothing else. -/
theorem dispatch_unpermitted {m : Method}
    (hm : Method.ofId f.methodId = some m) (hp : m.permits conn.role = false) :
    dispatch cfg env conn f = .refuse env conn f.methodId "unauthorized" := by
  have hid : m.id = f.methodId := Method.id_of_ofId hm
  have hg : ∀ body, guarded env conn m (m.permits conn.role) body = .refuse env conn m.id "unauthorized" := by
    intro body
    simp only [guarded, hp, Bool.false_eq_true, if_false]
  unfold dispatch
  rw [hm, ← hid]
  cases m with
  | authRequest => cases hp
  | _ => exact hg _

/-- Without a session a frame is answered with an error and leaves the connection as it was, unless it is an
    admitted `AUTH_REQUEST`. -/
theorem dispatch_no_session (hs : conn.session = none) (h : ¬ AuthAccepted cfg env f) :
    ∃ msg flow, flow ≠ .died ∧ dispatch cfg env conn f = .answer env conn (.error f.methodId msg) flow := by
  have hrole : conn.role = none := by simp [Conn.role, hs]
  cases hm : Method.ofId f.methodId with
  | none => exact ⟨_, .cleanup, nofun, by simp [dispatch, hm, unknownMethodBranch, Outcome.respond]; rfl⟩
  | some m =>
    have hid : m.id = f.methodId := Method.id_of_ofId hm
    by_cases ha : m = .authRequest
    · subst ha
      cases hc : authCheck cfg env f.payload with
      | error msg =>
        refine ⟨msg, .cleanup, nofun, ?_⟩
        simp [dispatch, hm, authBranch, hc, Outcome.respond, hid]
      | ok role => exact absurd ⟨hid.symm, role, hc⟩ h
    · refine ⟨"unauthorized", .next, nofun, ?_⟩
      exact dispatch_unpermitted hm (by rw [hrole]; exact Method.permits_none ha)

/-! ## The iteration -/

/-- The check that a session imposes on a frame: its own token verifies, with a role byte that decodes to the
    session's role. -/
structure TokenMatches (cfg : Config) (env : Env) (sess : SessionInfo) (f : Frame) : Prop where
  notAuth : f.methodId ≠ Method.authRequest.id
  verified : ∃ roleByte, verifyWireToken cfg env.nowToken f.token = .ok roleByte ∧
    Role.ofU8 roleByte = some sess.role

/-- The frame reaches the dispatch under a session that is still valid. -/
def Admitted (cfg : Config) (env : Env) (conn : Conn) (f : Frame) : Prop :=
  ∃ sess, conn.session = some sess ∧ TokenMatches cfg env sess f ∧ env.nowSession ≤ sess.expiresAtMs

/-- The frame passes the token check but finds the session expired. -/
def Expires (cfg : Config) (env : Env) (conn : Conn) (f : Frame) : Prop :=
  ∃ sess, conn.session = some sess ∧ TokenMatches cfg env sess f ∧ sess.expiresAtMs < env.nowSession

/-- What `handleFrame` answers to a frame that opens a session. -/
def opened (env : Env) (conn : Conn) (sess : SessionInfo) (r : Response) : Outcome :=
  { responses := [r, r], calls := [], edit := none, engine := env.engine,
    conn := ⟨some sess, conn.nextSid + 1⟩, flow := .cleanup }

/-- The admission of a client: a session under the connection's next id (with the response written twice), or
    a panic when clock and lifetime overflow. -/
theorem handleFrame_accepted (hs : conn.session = none) (h : AuthAccepted cfg env f) :
    (∃ sess r, sess.sessionId = conn.nextSid ∧ r.methodId = f.methodId ∧ r.status = statusOk ∧
        handleFrame cfg env conn f = opened env conn sess r) ∨
      handleFrame cfg env conn f = .panic { conn with nextSid := conn.nextSid + 1 } [] env.engine := by
  obtain ⟨hid, role, hrole⟩ := h
  have hm : Method.ofId f.methodId = some .authRequest := by rw [hid]; decide
  have ho : handleFrame cfg env conn f = authBranch cfg env conn f.payload := by
    simp only [handleFrame, hs, dispatch, hm]
  rw [ho]
  cases hadd : MachineInt.add env.nowAuth (ttlMs role) with
  | none => exact .inr (by simp only [authBranch, hrole, hadd])
  | some t =>
    refine .inl ⟨⟨conn.nextSid, role, t⟩, .ok Method.authRequest.id (buildWireToken cfg ⟨conn.nextSid, role, t⟩),
      rfl, hid.symm, rfl, ?_⟩
    simp only [authBranch, hrole, hadd, opened]

/-- The frame does not open a session here: it is not admitted, or a session is open already. -/
def NotOpening (cfg : Config) (env : Env) (conn : Conn) (f : Frame) : Prop :=
  conn.session = none → ¬ AuthAccepted cfg env f

/-- No valid session stood behind the frame: it got an error for an answer and changed nothing. -/
structure Refused (cfg : Config) (env : Env) (conn : Conn) (f : Frame) : Prop where
  notAdmitted : ¬ Admitted cfg env conn f
  notExpires : ¬ Expires cfg env conn f
  answered : ∃ msg flow, flow ≠ .died ∧
    handleFrame cfg env conn f = .answer env conn (.error f.methodId msg) flow

/-- A refusal for want of a matching token. -/
theorem Refused.of_token (msg : String) (ho : handleFrame cfg env conn f = .refuse env conn f.methodId msg)
    (hno : ∀ sess, conn.session = some sess → ¬ TokenMatches cfg env sess f) : Refused cfg env conn f where
  notAdmitted := fun ⟨sess, hs, ht, _⟩ => hno sess hs ht
  notExpires := fun ⟨sess, hs, ht, _⟩ => hno sess hs ht
  answered := ⟨msg, .next, nofun, ho⟩

/-- Without a session a frame that is not an admission changes nothing. -/
theorem Refused.of_no_session (hs : conn.session = none)
    (h : ¬ AuthAccepted cfg env f) : Refused cfg env conn f := by
  obtain ⟨msg, flow, hflow, hd⟩ := dispatch_no_session hs h
  refine ⟨?_, ?_, msg, flow, hflow, ?_⟩
  · rintro ⟨sess, hsess, _⟩
    rw [hs] at hsess; cases hsess
  · rintro ⟨sess, hsess, _⟩
    rw [hs] at hsess; cases hsess
  · simp only [handleFrame, hs]
    exact hd

/-- **The three ways through the loop body** of a frame that opens no session: it is refused, or dispatched
    under a valid session, or it finds the session expired and closes it. -/
theorem handleFrame_cases (h : NotOpening cfg env conn f) : Refused cfg env conn f ∨
      (Admitted cfg env conn f ∧ handleFrame cfg env conn f = dispatch cfg env conn f ∧
        Branch conn f.methodId (handleFrame cfg env conn f)) ∨
      (Expires cfg env conn f ∧ handleFrame cfg env conn f =
        .refuse env { conn with session := none } f.methodId "token expired") := by
  cases hs : conn.session with
  | none => exact .inl (.of_no_session hs (h hs))
  | some sess =>
    by_cases ha : f.methodId = Method.authRequest.id
    · refine .inl (.of_token "already authenticated" ?_ fun s _ ht => ht.notAuth ha)
      simp only [handleFrame, hs, if_pos ha]
    · cases hv : verifyWireToken cfg env.nowToken f.token with
      | error e =>
        refine .inl (.of_token ("auth: " ++ e) ?_ ?_)
        · simp only [handleFrame, hs, if_neg ha, hv]
        · rintro s _ ⟨_, b, hb, _⟩
          rw [hv] at hb; cases hb
      | ok roleByte =>
        by_cases hr : Role.ofU8 roleByte = some sess.role
        · have ht : TokenMatches cfg env sess f := ⟨ha, roleByte, hv, hr⟩
          by_cases hexp : env.nowSession > sess.expiresAtMs
          · refine .inr (.inr ⟨⟨sess, hs, ht, hexp⟩, ?_⟩)
            simp [handleFrame, hs, if_neg ha, hv, hr, if_pos hexp]
          · have ho : handleFrame cfg env conn f = dispatch cfg env conn f := by
              simp [handleFrame, hs, if_neg ha, hv, hr, if_neg hexp]
            refine .inr (.inl ⟨⟨sess, hs, ht, UInt64.not_lt.1 hexp⟩, ho, ?_⟩)
            rw [ho]
            exact dispatch_spec (fun hacc => ha hacc.1)
        · refine .inl (.of_token "role mismatch" ?_ ?_)
          · simp [handleFrame, hs, if_neg ha, hv, hr]
          · rintro s hsome ⟨_, b, hb, hrb⟩
            rw [hv] at hb
            rw [hs] at hsome
            cases hb
            cases hsome
            exact hr hrb

/-- A session after a frame was there before it, or the frame opened it. -/
theorem handleFrame_session {sess : SessionInfo} (h : (handleFrame cfg env conn f).conn.session = some sess) :
    conn.session = some sess ∨ conn.session = none ∧ AuthAccepted cfg env f := by
  by_cases hop : conn.session = none ∧ AuthAccepted cfg env f
  · exact .inr hop
  · have hno : NotOpening cfg env conn f := fun hs hacc => hop ⟨hs, hacc⟩
    left
    rcases handleFrame_cases hno with href | ⟨_, _, hb⟩ | ⟨_, ho⟩
    · obtain ⟨msg, flow, _, ho⟩ := href.answered
      rw [ho] at h; exact h
    · rw [hb.conn_eq] at h; exact h
    · rw [ho] at h; cases h

/-- **One answer per frame.** Every frame that opens no session is answered once, under its own method id,
    unless the thread panics. -/
theorem handleFrame_answers
    (h : NotOpening cfg env conn f) : Answers f.methodId (handleFrame cfg env conn f) := by
  rcases handleFrame_cases h with href | ⟨_, _, hb⟩ | ⟨_, ho⟩
  · obtain ⟨msg, flow, _, ho⟩ := href.answered
    rw [ho]; exact .inl rfl
  · exact hb.answers
  · rw [ho]; exact .inl rfl

end Audesys.Runtime.Ipc
