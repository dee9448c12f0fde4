import Audesys.Lib.Trace
import Audesys.Runtime.Ipc.Dispatch

/-!
# `Runtime.Ipc.Pairing` — one response per request

The client pairs requests and responses by position: `send_request` writes a frame and takes the next frame
off the stream without looking at its method id. That is right as long as the server writes exactly one
response for each request, in order.

Every frame is answered once under its own method id, unless its thread panics or it is an `AUTH_REQUEST`
that is accepted (`handleFrame_answers`). Accepted authentication is where the
pairing breaks: the token response is written by `handle_auth` and again by its caller, and from there on
every answer is one position late (`paired_iff`).

A read that waits for more than 500 ms times out. Between two frames that does nothing. Inside a frame the bytes that are
read already are lost, and the rest is read as a new frame; so the results here are about frames that arrive whole.
-/

open List

namespace Audesys.Runtime.Ipc

open Audesys.Hal

variable [Target]

/-! ## The loop -/

/-- The response frames the loop writes for a sequence of frames that it reads, each handled in its own environment. -/
def serve (cfg : Config) (conn : Conn) : List (Frame × Env) → List Response
  | [] => []
  | (f, env) :: rest =>
    let o := handleFrame cfg env conn f
    o.responses ++ (if o.flow = .died then [] else serve cfg o.conn rest)

/-- As long as nobody is admitted, the loop writes one error for each frame. -/
theorem serve_unauthenticated {cfg : Config} {conn : Conn} {items : List (Frame × Env)}
    (hs : conn.session = none) (h : ∀ it ∈ items, ¬ AuthAccepted cfg it.2 it.1) (rest : List (Frame × Env)) :
    ∃ rs, rs.map (·.methodId) = items.map (·.1.methodId) ∧
      serve cfg conn (items ++ rest) = rs ++ serve cfg conn rest := by
  induction items with
  | nil => exact ⟨[], rfl, rfl⟩
  | cons it items ih =>
    obtain ⟨f, env⟩ := it
    obtain ⟨rs, hids, hrun⟩ := ih (fun it hm => h it (mem_cons_of_mem _ hm))
    obtain ⟨msg, flow, hflow, ho⟩ := (Refused.of_no_session hs (h (f, env) mem_cons_self)).answered
    refine ⟨.error f.methodId msg :: rs, by simp [hids], ?_⟩
    simp [serve, ho, Outcome.answer, hflow, hrun]

/-- With a session open, one surplus answer is never made up for: to pair up, every later request would have
    to be an `AUTH_REQUEST`, and each of those is answered with one more error. -/
theorem serve_shifted {cfg : Config} {conn : Conn} {sess : SessionInfo} (hs : conn.session = some sess)
    (items : List (Frame × Env)) :
    Method.authRequest.id :: (serve cfg conn items).map (·.methodId) ≠ items.map (·.1.methodId) := by
  induction items with
  | nil => exact nofun
  | cons it items ih =>
    obtain ⟨f, env⟩ := it
    intro heq
    rw [map_cons, cons_eq_cons] at heq
    obtain ⟨hid, htail⟩ := heq
    have hf : f.methodId = Method.authRequest.id := hid.symm
    have ho : handleFrame cfg env conn f =
        Outcome.refuse env conn Method.authRequest.id "already authenticated" := by
      simp only [handleFrame, hs, hf, if_true]
    have hserve : serve cfg conn ((f, env) :: items) =
        .error Method.authRequest.id "already authenticated" :: serve cfg conn items := by
      simp [serve, ho, Outcome.refuse, Outcome.answer]
    rw [hserve, map_cons] at htail
    exact ih htail

/-- The method ids of what the loop writes are those of the frames exactly when no frame is an `AUTH_REQUEST` that the server
    admits. -/
theorem serve_ids_iff (cfg : Config) (items : List (Frame × Env)) :
    (serve cfg .init items).map (·.methodId) = items.map (·.1.methodId) ↔ ∀ it ∈ items, ¬ AuthAccepted cfg it.2 it.1 := by
  have hinit : Conn.init.session = none := rfl
  constructor
  · intro hp it hit hacc
    -- look at the first admitted request
    obtain ⟨pre, ⟨f, env⟩, post, rfl, hf, hfirst⟩ :=
      Lib.exists_first (P := fun it : Frame × Env => AuthAccepted cfg it.2 it.1) ⟨it, hit, hacc⟩
    obtain ⟨rs, hids, hrun⟩ := serve_unauthenticated hinit hfirst ((f, env) :: post)
    rw [hrun, map_append, map_append, hids] at hp
    have hp := append_cancel_left hp
    rcases handleFrame_accepted hinit hf with ⟨sess, r, _, hrid, _, ho⟩ | ho
    · simp only [serve, ho, opened, map_cons, cons_append, nil_append, cons_eq_cons,
        reduceCtorEq, if_false] at hp
      obtain ⟨_, htail⟩ := hp
      rw [hrid, hf.1] at htail
      exact serve_shifted rfl post htail
    · simp [serve, ho, Outcome.panic] at hp
  · intro h
    obtain ⟨rs, hids, hrun⟩ := serve_unauthenticated hinit h []
    rw [List.append_nil] at hrun
    rw [hrun]
    simp [serve, hids]

/-! ## On the byte stream -/

/-- `handle_connection` on the bytes of its socket: read a frame, handle it, write the responses. The bytes come in pieces,
    cut where a read times out; a frame that goes on past the end of its piece is lost up to there, and the loop reads on
    in the next piece. The list of environments bounds the number of frames. -/
def handleConnection (cfg : Config) (conn : Conn) (envs : List Env) (pieces : List (List UInt8)) : List Response :=
  match envs, pieces with
  | [], _ | _, [] => []
  | env :: envs, piece :: pieces =>
    match readFrame piece with
    | .error .tooShort => []
    -- the timeout, or the hang-up behind the last piece
    | .error .noBytes => handleConnection cfg conn (env :: envs) pieces
    | .ok (f, rest) =>
      let o := handleFrame cfg env conn f
      o.responses ++ (if o.flow = .died then [] else handleConnection cfg o.conn envs (rest :: pieces))
termination_by (pieces.length, envs.length)

/-- A timeout between two frames does nothing. -/
theorem handleConnection_idle (cfg : Config) (conn : Conn) (envs : List Env) (pieces : List (List UInt8)) :
    handleConnection cfg conn envs ([] :: pieces) = handleConnection cfg conn envs pieces := by
  have hread : readFrame [] = .error .noBytes := rfl
  cases envs with
  | nil => rw [handleConnection, handleConnection]
  | cons env envs => rw [handleConnection, hread]

/-- The frames of one piece, in front of pieces that are served. -/
theorem handleConnection_piece {cfg : Config} {conn : Conn} {items later : List (Frame × Env)} {pieces : List (List UInt8)}
    (hwf : ∀ it ∈ items, it.1.WellFormed)
    (hlater : ∀ conn, handleConnection cfg conn (later.map (·.2)) pieces = serve cfg conn later) :
    handleConnection cfg conn ((items ++ later).map (·.2)) (items.flatMap (·.1.encode) :: pieces) =
      serve cfg conn (items ++ later) := by
  induction items generalizing conn with
  | nil => exact (handleConnection_idle ..).trans (hlater conn)
  | cons it items ih =>
    obtain ⟨f, env⟩ := it
    have hf : f.WellFormed := hwf (f, env) mem_cons_self
    have hrest := @ih (handleFrame cfg env conn f).conn fun it hm => hwf it (mem_cons_of_mem _ hm)
    rw [cons_append, map_cons, flatMap_cons, handleConnection, readFrame_encode hf]
    simp only [serve, hrest]

/-- **Frames that arrive whole** are served one after the other, whatever the pauses between them. -/
theorem handleConnection_encode {cfg : Config} {conn : Conn} {groups : List (List (Frame × Env))}
    (hwf : ∀ it ∈ groups.flatten, it.1.WellFormed) :
    handleConnection cfg conn (groups.flatten.map (·.2)) (groups.map fun items => items.flatMap (·.1.encode)) =
      serve cfg conn groups.flatten := by
  induction groups generalizing conn with
  | nil => rw [flatten_nil, map_nil, handleConnection, serve]
  | cons items groups ih =>
    rw [flatten_cons] at hwf ⊢
    exact handleConnection_piece (fun it hm => hwf it (mem_append_left _ hm))
      fun conn => ih fun it hm => hwf it (mem_append_right _ hm)

/-- What a fresh connection writes when the frames arrive whole, in groups with more than the read timeout between them. -/
def answers (cfg : Config) (groups : List (List (Frame × Env))) : List Response :=
  handleConnection cfg .init (groups.flatten.map (·.2)) (groups.map fun items => items.flatMap (·.1.encode))

/-- **Pairing**: the responses carry the method ids of the requests, one for one and in order; and so do those that the
    client takes off the stream, as long as no response overflows its length field. Push frames are not counted. -/
structure Paired (cfg : Config) (groups : List (List (Frame × Env))) : Prop where
  answered : (answers cfg groups).map (·.methodId) = groups.flatten.map (·.1.methodId)
  read : (∀ r ∈ answers cfg groups, r.Fits) → ∃ rs,
    readResponses groups.flatten.length ((answers cfg groups).flatMap Response.encode) = some rs ∧
      rs.map (·.methodId) = groups.flatten.map (·.1.methodId)

/-- **Request/response pairing.** The responses to frames that arrive whole pair up with the requests exactly when no request
    is an `AUTH_REQUEST` that the server admits. -/
theorem paired_iff (cfg : Config) (groups : List (List (Frame × Env))) (hwf : ∀ it ∈ groups.flatten, it.1.WellFormed) :
    Paired cfg groups ↔ ∀ it ∈ groups.flatten, ¬ AuthAccepted cfg it.2 it.1 := by
  rw [← serve_ids_iff, ← handleConnection_encode hwf]
  constructor
  · exact Paired.answered
  · intro hids
    have hlen : (answers cfg groups).length = groups.flatten.length := by
      have hlen := congrArg List.length hids
      rwa [length_map, length_map] at hlen
    refine ⟨hids, fun hfits => ⟨answers cfg groups, ?_, hids⟩⟩
    rw [← hlen]
    exact readResponses_encode hfits

/-- **A session in bytes.** The client reads off the stream what the server has answered to frames that arrive whole, in its
    order, as long as no answer overflows its length field. -/
theorem readResponses_handleConnection {cfg : Config} {conn : Conn} {groups : List (List (Frame × Env))}
    (hwf : ∀ it ∈ groups.flatten, it.1.WellFormed) (hfits : ∀ r ∈ serve cfg conn groups.flatten, r.Fits) :
    readResponses (serve cfg conn groups.flatten).length
      ((handleConnection cfg conn (groups.flatten.map (·.2))
        (groups.map fun items => items.flatMap (·.1.encode))).flatMap Response.encode) =
      some (serve cfg conn groups.flatten) := by
  rw [handleConnection_encode hwf]
  exact readResponses_encode hfits

end Audesys.Runtime.Ipc

/-! ## An engineer logs in -/

namespace Audesys.Runtime.Ipc

open Audesys.Hal

local instance releasePairing : Target := host false

/-- A login alone. -/
def loginOnly : List (List (Frame × Env)) := [[(authFrame .engineer, quietEnv 0)]]

theorem wellFormed_loginOnly : ∀ it ∈ loginOnly.flatten, it.1.WellFormed := by
  intro it hit
  rw [mem_singleton.1 hit]
  exact ⟨rfl, by decide⟩

/-- One `AUTH_REQUEST`, two responses, whatever the signature function. -/
theorem auth_not_paired : (authFrame .engineer).WellFormed ∧
    ∀ mac, (answers (defaultConfig mac) loginOnly).length = 2 ∧ ¬ Paired (defaultConfig mac) loginOnly := by
  refine ⟨⟨rfl, by decide⟩, fun mac => ?_⟩
  have htwo : (answers (defaultConfig mac) loginOnly).length = 2 := by
    unfold answers
    rw [handleConnection_encode wellFormed_loginOnly]
    rfl
  refine ⟨htwo, ?_⟩
  intro h
  have hl := congrArg List.length h.answered
  rw [length_map, htwo] at hl
  cases hl

/-- A `PAUSE` without a session, and a second one after a pause of more than the read timeout. -/
def twoPauses : List (List (Frame × Env)) :=
  [[(⟨List.replicate 64 0, Method.pause.id, []⟩, quietEnv 0)], [(⟨List.replicate 64 0, Method.pause.id, []⟩, quietEnv 900)]]

theorem twoPauses_paired : Paired (defaultConfig constantMac) twoPauses := by
  have hframe : ∀ it ∈ twoPauses.flatten, it.1 = ⟨List.replicate 64 0, Method.pause.id, []⟩ := by
    intro it hit
    rcases mem_cons.1 hit with rfl | hit
    · rfl
    · rw [mem_singleton.1 hit]
  refine (paired_iff _ twoPauses fun it hit => ?_).2 fun it hit hauth => ?_
  · rw [hframe it hit]
    exact ⟨rfl, by decide⟩
  · have hid := hauth.1
    rw [hframe it hit] at hid
    exact absurd hid (by decide)

theorem readResponses_login : readResponses 2 ((handleConnection (defaultConfig constantMac) .init [quietEnv 0]
    [(authFrame .engineer).encode ++ []]).flatMap Response.encode) =
      some (serve (defaultConfig constantMac) .init loginOnly.flatten) := by
  have hfits : ∀ r ∈ serve (defaultConfig constantMac) .init loginOnly.flatten, r.Fits := by
    unfold Response.Fits
    decide
  exact readResponses_handleConnection wellFormed_loginOnly hfits

end Audesys.Runtime.Ipc
