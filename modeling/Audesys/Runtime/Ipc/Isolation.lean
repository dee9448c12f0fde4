import Audesys.Runtime.Ipc.Subscriptions

/-!
# `Runtime.Ipc.Isolation` — session ids across connections

Session ids are the keys by which `UNSUBSCRIBE_SIGNAL` and the clean-up filter the shared table, so isolation
needs them to differ between connections. They come from a counter that the accept loop creates anew for
each connection: the id of a connection's session is the number of sessions the connection has opened
(`IdInv`), and two connections that each log in once both hold id 1.

Isolation therefore holds as long as no connection opens its `n`-th session while the session of another
connection is that connection's `n`-th (`isolated_of_distinct`).
-/

namespace Audesys.Runtime.Ipc

open Audesys.Hal Audesys.Lib Server

/-! ## How many sessions a connection has opened -/

/-- The event is an `AUTH_REQUEST` of connection `c` that was answered with `STATUS_OK`. -/
def Event.opens (c : Nat) : Event → Bool
  | .handled d f rs => d == c && f.methodId == Method.authRequest.id && rs.any (·.status == statusOk)
  | .disconnected _ => false

/-- The number of sessions that connection `c` has opened. -/
def sessionsOpened (log : List Event) (c : Nat) : Nat := log.countP (Event.opens c)

theorem sessionsOpened_append (log es : List Event) (c : Nat) :
    sessionsOpened (log ++ es) c = sessionsOpened log c + sessionsOpened es c :=
  List.countP_append

variable [Target]

theorem sessionsOpened_record_other {c d : Nat} (f : Frame) (o : Outcome) (h : d ≠ c) :
    sessionsOpened (record c f o) d = 0 := by
  have hcd : (c == d) = false := by simpa using fun hcd : c = d => h hcd.symm
  unfold record
  split <;> simp [sessionsOpened, Event.opens, hcd]

theorem sessionsOpened_record_self (c : Nat) (f : Frame) (o : Outcome) :
    sessionsOpened (record c f o) c =
      if f.methodId = Method.authRequest.id ∧ o.responses.any (·.status == statusOk) then 1 else 0 := by
  unfold record
  split <;> simp [sessionsOpened, Event.opens, List.countP_cons, List.countP_nil]

/-- A frame that opens no session is no `AUTH_REQUEST` answered with `STATUS_OK`. -/
theorem not_opens_of_notOpening {cfg : Config} {env : Env} {conn : Conn} {f : Frame}
    (h : NotOpening cfg env conn f) :
    ¬ (f.methodId = Method.authRequest.id ∧ (handleFrame cfg env conn f).responses.any (·.status == statusOk)) := by
  rintro ⟨hauth, hok⟩
  rcases handleFrame_cases h with href | ⟨⟨_, _, ht, _⟩, _, _⟩ | ⟨⟨_, _, ht, _⟩, _⟩
  · obtain ⟨msg, flow, _, ho⟩ := href.answered
    rw [ho] at hok
    cases hok
  · exact ht.notAuth hauth
  · exact ht.notAuth hauth

/-! ## The invariant of the ids -/

/-- The connection's counter and session id, by the number of sessions it has opened. -/
structure IdsAt (n : Nat) (conn : Conn) : Prop where
  nextSid : conn.nextSid = UInt64.ofNat (n + 1)
  session : ∀ sess, conn.session = some sess → sess.sessionId = UInt64.ofNat n

/-- In every state of a connection its ids count its sessions. -/
def IdInv (σ : Server) : Prop :=
  ∀ c, match σ.phase c with
    | .unborn => sessionsOpened σ.log c = 0
    | .idle conn | .cleaning conn => IdsAt (sessionsOpened σ.log c) conn
    | .gone => True

/-- What a frame does to the ids. -/
theorem idsAt_handleFrame (cfg : Config) (env : Env) {conn : Conn} (f : Frame) {n : Nat} (c : Nat)
    (h : IdsAt n conn) (hflow : (handleFrame cfg env conn f).flow ≠ .died) :
    IdsAt (n + sessionsOpened (record c f (handleFrame cfg env conn f)) c) (handleFrame cfg env conn f).conn := by
  rw [sessionsOpened_record_self]
  by_cases hop : conn.session = none ∧ AuthAccepted cfg env f
  · rcases handleFrame_accepted hop.1 hop.2 with ⟨sess, r, hsid, _, hok, ho⟩ | ho
    · have hopens : f.methodId = Method.authRequest.id ∧
          (handleFrame cfg env conn f).responses.any (·.status == statusOk) := by
        rw [ho]
        exact ⟨hop.2.1, by simp [opened, hok]⟩
      rw [if_pos hopens, ho]
      refine ⟨?_, ?_⟩
      · show conn.nextSid + 1 = _
        rw [h.nextSid, ← UInt64.ofNat_one, ← UInt64.ofNat_add]
      · rintro s hs
        cases hs
        rw [hsid, h.nextSid]
    · rw [ho] at hflow
      exact absurd rfl hflow
  · have hno : NotOpening cfg env conn f := fun hs hacc => hop ⟨hs, hacc⟩
    rw [if_neg (not_opens_of_notOpening hno), Nat.add_zero]
    rcases handleFrame_cases hno with href | ⟨_, _, hb⟩ | ⟨_, ho⟩
    · obtain ⟨msg, flow, _, ho⟩ := href.answered
      rw [ho]; exact h
    · rw [hb.conn_eq]; exact h
    · rw [ho]
      refine ⟨h.nextSid, ?_⟩
      intro sess hsess
      cases hsess

theorem idInv_step {cfg : Config} {σ τ : Server} {a : ServerAction} (hstep : step cfg σ a = some τ)
    (h : IdInv σ) : IdInv τ := by
  intro d
  have hd := h d
  cases step_cases hstep with
  | @accept c hc =>
    -- the connection of the step, and the others, which it leaves alone
    by_cases hdc : d = c
    · subst hdc
      rw [hc] at hd
      rw [setPhase_self]
      refine ⟨?_, ?_⟩
      · show _ = UInt64.ofNat (sessionsOpened σ.log d + 1)
        rw [hd]
        rfl
      · intro sess hsess
        cases hsess
    · rw [setPhase_other _ _ hdc]; exact hd
  | @frame c f env conn o hc ho =>
    by_cases hdc : d = c
    · subst hdc
      rw [hc] at hd
      rw [setPhase_self]
      have hids := idsAt_handleFrame cfg env f d hd
      rw [← sessionsOpened_append, ho] at hids
      simp only [phaseAfter]
      -- unless the connection died, its session is the one that the frame left
      cases hflow : o.flow with
      | next =>
        apply hids
        rw [hflow]
        intro hdied
        cases hdied
      | cleanup =>
        apply hids
        rw [hflow]
        intro hdied
        cases hdied
      | died => trivial
    · rw [setPhase_other _ _ hdc]
      simp only [setPhase_log, sessionsOpened_append, ← ho, sessionsOpened_record_other f _ hdc, Nat.add_zero]
      exact hd
  | @cleanup c conn hc =>
    by_cases hdc : d = c
    · subst hdc
      rw [hc] at hd
      rw [setPhase_self]
      exact hd
    · rw [setPhase_other _ _ hdc]; exact hd
  | @disconnect c conn hc =>
    by_cases hdc : d = c
    · subst hdc
      rw [setPhase_self]
      trivial
    · rw [setPhase_other _ _ hdc]
      simp only [setPhase_log, sessionsOpened_append]
      exact hd

theorem idInv_run {cfg : Config} {as : List ServerAction} {σ : Server} (h : Trace (step cfg) init as σ) :
    IdInv σ :=
  Trace.invariant (fun _ _ _ hs hi => idInv_step hs hi) h (fun _ => rfl)

omit [Target] in
/-- The id of an open session is the number of sessions its connection has opened. -/
theorem sessionId_eq {σ : Server} (h : IdInv σ) {c : Nat} {sess : SessionInfo}
    (hs : (σ.phase c).session = some sess) : sess.sessionId = UInt64.ofNat (sessionsOpened σ.log c) := by
  have hc := h c
  cases hp : σ.phase c with
  | unborn => rw [hp] at hs; cases hs
  | idle conn => rw [hp] at hs hc; exact hc.session sess hs
  | cleaning conn => rw [hp] at hs hc; exact hc.session sess hs
  | gone => rw [hp] at hs; cases hs

/-! ## Isolation -/

/-- **Isolation** of the ids: connections that are authenticated at the same time hold different session ids. -/
def Isolated (σ : Server) : Prop :=
  ∀ c d s₁ s₂, c ≠ d → (σ.phase c).session = some s₁ → (σ.phase d).session = some s₂ →
    s₁.sessionId ≠ s₂.sessionId

/-- The connection whose thread takes the action. -/
def ServerAction.actor : ServerAction → Nat
  | .accept c | .frame c _ _ | .cleanup c | .disconnect c => c

/-- **Isolation** of the table: an action of one connection removes no entry of another. -/
def Respects (cfg : Config) (σ : Server) : Prop :=
  ∀ a τ, step cfg σ a = some τ → ∀ signal sid d, d ≠ a.actor → σ.subs.Has signal sid d → τ.subs.Has signal sid d

/-- A connection that opens a session does not thereby reach the number of sessions (modulo 2^64) of another
    connection that is authenticated. -/
def Distinct (cfg : Config) (σ : Server) : ServerAction → Prop
  | .frame c f env =>
    (σ.phase c).session = none → AuthAccepted cfg env f → ∀ d sess, d ≠ c → (σ.phase d).session = some sess →
      UInt64.ofNat (sessionsOpened σ.log d) ≠ UInt64.ofNat (sessionsOpened σ.log c + 1)
  | _ => True

/-- Where a session after an action comes from: it was there, or the action opened it. -/
theorem session_step {cfg : Config} {σ τ : Server} {a : ServerAction} (hids : IdInv σ)
    (hstep : step cfg σ a = some τ) {d : Nat} {sess : SessionInfo} (hs : (τ.phase d).session = some sess) :
    (σ.phase d).session = some sess ∨
      ∃ f env, a = .frame d f env ∧ (σ.phase d).session = none ∧ AuthAccepted cfg env f ∧
        sess.sessionId = UInt64.ofNat (sessionsOpened σ.log d + 1) := by
  cases step_cases hstep with
  | @accept c hc =>
    by_cases hdc : d = c
    · subst hdc; rw [setPhase_self] at hs; cases hs
    · rw [setPhase_other _ _ hdc] at hs; exact .inl hs
  | @frame c f env conn o hc ho =>
    by_cases hdc : d = c
    · subst hdc
      have hd := hids d
      rw [hc] at hd ⊢
      rw [setPhase_self] at hs
      have hsess : o.conn.session = some sess := by
        simp only [phaseAfter] at hs
        split at hs
        · exact hs
        · exact hs
        · cases hs
      subst ho
      rcases handleFrame_session hsess with hold | ⟨hn, hacc⟩
      · exact .inl hold
      · refine .inr ⟨f, env, rfl, hn, hacc, ?_⟩
        rcases handleFrame_accepted hn hacc with ⟨s, r, hsid, _, _, ho⟩ | ho
        · rw [ho] at hsess
          cases hsess
          rw [hsid, hd.nextSid]
        · rw [ho] at hsess
          rw [show _ = conn.session from rfl, hn] at hsess
          cases hsess
    · rw [setPhase_other _ _ hdc] at hs; exact .inl hs
  | @cleanup c conn hc =>
    by_cases hdc : d = c
    · subst hdc; rw [setPhase_self] at hs; rw [hc]; exact .inl hs
    · rw [setPhase_other _ _ hdc] at hs; exact .inl hs
  | @disconnect c conn hc =>
    by_cases hdc : d = c
    · subst hdc; rw [setPhase_self] at hs; cases hs
    · rw [setPhase_other _ _ hdc] at hs; exact .inl hs

theorem isolated_step {cfg : Config} {σ τ : Server} {a : ServerAction} (hids : IdInv σ) (h : Isolated σ)
    (hg : Distinct cfg σ a) (hstep : step cfg σ a = some τ) : Isolated τ := by
  intro c d s₁ s₂ hcd h₁ h₂
  rcases session_step hids hstep h₁ with h₁ | ⟨f, env, rfl, hn, hacc, hid⟩
  · rcases session_step hids hstep h₂ with h₂ | ⟨f, env, rfl, hn, hacc, hid⟩
    · exact h c d s₁ s₂ hcd h₁ h₂
    · rw [sessionId_eq hids h₁, hid]
      exact hg hn hacc c s₁ hcd h₁
  · rcases session_step hids hstep h₂ with h₂ | ⟨f', env', heq, _⟩
    · rw [sessionId_eq hids h₂, hid]
      exact (hg hn hacc d s₂ hcd.symm h₂).symm
    · cases heq
      exact absurd rfl hcd

/-- With distinct ids, no action touches the entries of another connection: entries carry the id of the
    session that stands behind them, and an action filters by the id of its own connection's session. -/
theorem respects_of_isolated {cfg : Config} {σ : Server} (hinv : SubsInv σ) (h : Isolated σ) :
    Respects cfg σ := by
  intro a τ hstep signal sid d hda hhas
  obtain ⟨conn', sess', hp, hs', hid⟩ := hinv signal sid d hhas
  have hd : (σ.phase d).session = some sess' := by rw [hp]; exact hs'
  cases step_cases hstep with
  | accept hc => exact hhas
  | @frame c f env conn o hc ho =>
    subst ho
    show (applyEdit c σ.subs _).Has signal sid d
    cases hedit : (handleFrame cfg env conn f).edit with
    | none => exact hhas
    | some e =>
      obtain ⟨⟨sess, s, hs, he⟩, _⟩ := handleFrame_edit hedit
      rcases he with rfl | rfl
      · exact Table.has_push.2 (.inl hhas)
      · refine Table.has_remove_of_ne hhas ?_
        rw [← hid]
        exact h d c sess' sess hda hd (by rw [hc]; exact hs)
  | @cleanup c conn hc =>
    simp only [setPhase_subs, cleaned]
    split
    · rename_i sess hs
      refine Table.has_dropSession.2 ⟨hhas, ?_⟩
      rw [← hid]
      exact h d c sess' sess hda hd (by rw [hc]; exact hs)
    · exact hhas
  | disconnect hc => exact hhas

/-- **Session isolation.** In every run in which no connection opens its `n`-th session while the open session
    of another connection is that connection's `n`-th (modulo 2^64), connections that are authenticated at
    the same time hold different ids, and no action of one removes an entry of another. -/
theorem isolated_of_distinct (cfg : Config) (as : List ServerAction) (σ : Server)
    (hrun : Trace (step cfg) init as σ) (hg : Trace.Guarded (step cfg) (Distinct cfg) init as) :
    Isolated σ ∧ Respects cfg σ := by
  have hiso : Isolated σ := by
    refine Trace.invariant_of_guard (I := fun _ σ => Isolated σ) ?_ ?_ hrun hg
    · intro c d s₁ s₂ _ h₁ _
      cases h₁
    · intro as τ a υ hτ hi hd hs
      exact isolated_step (idInv_run hτ) hi hd hs
  exact ⟨hiso, respects_of_isolated (subsInv_run hrun) hiso⟩

end Audesys.Runtime.Ipc

/-! ## Two engineers -/

namespace Audesys.Runtime.Ipc

open Audesys.Hal Audesys.Lib Server

local instance releaseIsolation : Target := host false

/-- Connection 0 logs in and is subscribing to `x` when connection 1 logs in. -/
def twoLogins : List ServerAction :=
  [.accept 0, .accept 1, .frame 0 (authFrame .engineer) (quietEnv 0), .cleanup 0,
    .frame 0 (engineerFrame .subscribeSignal [0x78]) (quietEnv 1), .frame 1 (authFrame .engineer) (quietEnv 2)]

/-- Both hold session id 1, and the clean-up of connection 1 takes the entry of connection 0. -/
theorem twoLogins_not_isolated : ∃ σ, Trace (step (defaultConfig constantMac)) init twoLogins σ ∧
    ¬ Isolated σ ∧ ¬ Respects (defaultConfig constantMac) σ := by
  have hreach : ∃ σ : Server, Trace (step (defaultConfig constantMac)) init twoLogins σ ∧
      (σ.phase 0).session = some ⟨1, .engineer, 3600000⟩ ∧ (σ.phase 1).session = some ⟨1, .engineer, 3600002⟩ ∧
      σ.subs = [(lossyString [0x78], [(1, 0)])] ∧
      ∃ τ, step (defaultConfig constantMac) σ (.cleanup 1) = some τ ∧ τ.subs = [] :=
    ⟨_, .cons rfl (.cons rfl (.cons rfl (.cons rfl (.cons rfl (.cons rfl (.nil _)))))), rfl, rfl, rfl, _, rfl, rfl⟩
  obtain ⟨σ, hrun, h₀, h₁, hsubs, τ, hstep, hτ⟩ := hreach
  refine ⟨σ, hrun, ?_, ?_⟩
  · intro hiso
    exact hiso 0 1 _ _ (by decide) h₀ h₁ rfl
  · intro hresp
    have hhas : σ.subs.Has (lossyString [0x78]) 1 0 := by
      rw [hsubs]
      exact Table.has_cons.2 (.inl ⟨rfl, List.mem_cons_self⟩)
    have hkept := hresp (.cleanup 1) τ hstep _ _ 0 (by decide) hhas
    rw [hτ] at hkept
    exact Table.not_has_nil hkept

/-- The session of connection 0 runs out and it logs in again; then connection 1 logs in. -/
def secondAndFirst : List ServerAction :=
  [.accept 0, .accept 1, .frame 0 (authFrame .engineer) (quietEnv 0), .cleanup 0,
    .frame 0 (engineerFrame .pause []) { quietEnv 3600000 with nowSession := 3600001 },
    .frame 0 (authFrame .engineer) (quietEnv 3600002), .cleanup 0, .frame 1 (authFrame .engineer) (quietEnv 3600003)]

/-- Both have a session, with the ids 2 and 1. -/
theorem secondAndFirst_isolated : ∃ σ, Trace (step (defaultConfig constantMac)) init secondAndFirst σ ∧
    (σ.phase 0).session = some ⟨2, .engineer, 7200002⟩ ∧ (σ.phase 1).session = some ⟨1, .engineer, 7200003⟩ ∧
      Isolated σ ∧ Respects (defaultConfig constantMac) σ := by
  refine ⟨_, .cons rfl (.cons rfl (.cons rfl (.cons rfl (.cons rfl (.cons rfl (.cons rfl (.cons rfl (.nil _)))))))),
    rfl, rfl, isolated_of_distinct (defaultConfig constantMac) secondAndFirst _
      (.cons rfl (.cons rfl (.cons rfl (.cons rfl (.cons rfl (.cons rfl (.cons rfl (.cons rfl (.nil _))))))))) ?_⟩
  refine .cons rfl trivial (.cons rfl trivial (.cons rfl ?_ (.cons rfl trivial (.cons rfl ?_ (.cons rfl ?_
    (.cons rfl trivial (.cons rfl ?_ (.nil _))))))))
  · -- nobody else is authenticated
    intro _ _ d sess hd hs
    rcases d with _ | _ | d
    · exact absurd rfl hd
    · cases hs
    · cases hs
  · exact nofun
  · intro _ _ d sess hd hs
    rcases d with _ | _ | d
    · exact absurd rfl hd
    · cases hs
    · cases hs
  · -- the first session of connection 1, and the second of connection 0
    intro _ _ d sess hd hs
    rcases d with _ | _ | d
    · decide
    · exact absurd rfl hd
    · cases hs

end Audesys.Runtime.Ipc
