import Mathlib.Data.List.Basic
import Mathlib.Data.List.Induction

/-!
# `Debug.Breakpoints` — concurrent `setBreakpoints` requests

`handleSetBreakpoints` of the debug channel (`debug-channel.ts`) over the breakpoint set of its bridge, the stub's or that
of `RealDapBridge`. A request reads the set, removes what it has read and adds its own lines, one call at a time, and
awaits each call; `send` starts a request and does not wait for the ones before it. So the turns of the requests come
in any order, and `Event` is one of them.

A request does not see what the others do behind its own last call on a line. The set is the one the last request asks
for exactly where the earlier requests leave these lines as it asks (`lastWins_iff`); requests that are answered before
the last one reads the set do (`leftAlone_of_quiet`).
-/

open List

namespace Audesys.Debug

/-! ## The bridge -/

/-- The two implementations of `IDebugBridge`, as far as their breakpoint sets go. -/
inductive Bridge where
  | stub
  | real
  deriving DecidableEq

/-- `addBreakpoint`: the real bridge adds no line twice. -/
def Bridge.addBreakpoint (bridge : Bridge) (bps : List Int) (ip : Int) : List Int :=
  match bridge with
  | .stub => bps ++ [ip]
  | .real => if !bps.contains ip then bps ++ [ip] else bps

def removeBreakpoint (bps : List Int) (ip : Int) : List Int := bps.filter (· != ip)

/-- The calls of a request. -/
inductive Call where
  | getBreakpoints
  | removeBreakpoint (ip : Int)
  | addBreakpoint (ip : Int)
  deriving DecidableEq

/-- The breakpoints behind a call. -/
def Bridge.apply (bridge : Bridge) (bps : List Int) : Call → List Int
  | .getBreakpoints => bps
  | .removeBreakpoint ip => Debug.removeBreakpoint bps ip
  | .addBreakpoint ip => bridge.addBreakpoint bps ip

/-! ## Requests -/

/-- An entry of the response. -/
structure BreakpointResult where
  id : Nat
  verified : Bool
  line : Int
  message : Option String
  deriving DecidableEq

/-- Where `handleSetBreakpoints` stands: at the read, in the loop that removes what is left of the read set, in the loop
that adds what is left of the lines, or behind its response. -/
inductive Stage where
  | reading
  | clearing (left : List Int)
  | adding (result : List BreakpointResult) (left : List Int)
  | answered
  deriving DecidableEq

structure Request where
  requestSeq : Nat
  lines : List Int
  stage : Stage
  deriving DecidableEq

/-- What a turn of a request leaves: the breakpoints, its stage, the call it has made, and its response. -/
structure Turned where
  bps : List Int
  stage : Stage
  call : Option Call
  answer : Option (Except String (List BreakpointResult))

/-- The text of `dispatch` for what a request throws. -/
def thrown (e : String) : Except String (List BreakpointResult) := .error ("setBreakpoints: " ++ e)

/-- A turn of `handleSetBreakpoints`, up to the next call. `outcome` is none if the call completes, and else what it is
rejected with; the bridge has changed its set in both cases. -/
def Request.turn (r : Request) (bridge : Bridge) (bps : List Int) (outcome : Option String) : Turned :=
  match r.stage with
  | .reading =>
    match outcome with
    | none => ⟨bps, .clearing bps, some .getBreakpoints, none⟩
    | some e => ⟨bps, .answered, some .getBreakpoints, some (thrown e)⟩
  | .clearing (ip :: left) =>
    match outcome with
    | none => ⟨removeBreakpoint bps ip, .clearing left, some (.removeBreakpoint ip), none⟩
    | some e => ⟨removeBreakpoint bps ip, .answered, some (.removeBreakpoint ip), some (thrown e)⟩
  | .clearing [] => ⟨bps, .adding [] r.lines, none, none⟩
  | .adding result (line :: left) =>
    let entry : BreakpointResult :=
      match outcome with
      | none => ⟨result.length + 1, true, line, none⟩
      | some e => ⟨result.length + 1, false, line, some e⟩
    ⟨bridge.addBreakpoint bps line, .adding (result ++ [entry]) left, some (.addBreakpoint line), none⟩
  | .adding result [] => ⟨bps, .answered, none, some (.ok result)⟩
  | .answered => ⟨bps, .answered, none, none⟩

/-! ## The channel -/

/-- A response on the wire; the body of a failed one is its message. -/
structure Message where
  seq : Nat
  requestSeq : Nat
  body : Except String (List BreakpointResult)

/-- The channel with its bridge. `log` has the calls in the order in which they took effect, each with the number of the
request that made it. -/
structure Channel where
  bps : List Int
  requests : List Request
  seq : Nat
  messages : List Message
  log : List (Nat × Call)

inductive Event where
  /-- `send` of a `setBreakpoints` request. -/
  | send (requestSeq : Nat) (lines : List Int)
  /-- A turn of the request with the number. -/
  | turn (i : Nat) (outcome : Option String)
  deriving DecidableEq

/-- No call is rejected. -/
def Event.Completes : Event → Prop
  | .send _ _ => True
  | .turn _ outcome => outcome = none

instance (e : Event) : Decidable e.Completes :=
  match e with
  | .send _ _ => .isTrue trivial
  | .turn _ outcome => inferInstanceAs (Decidable (outcome = none))

namespace Channel

/-- A channel that has sent nothing, over a bridge with some breakpoints. -/
def init (bps : List Int) : Channel := ⟨bps, [], 1, [], []⟩

/-- `respond` and `err`. -/
def respond (s : Channel) (requestSeq : Nat) (answer : Option (Except String (List BreakpointResult))) : Channel :=
  match answer with
  | none => s
  | some body => { s with seq := s.seq + 1, messages := s.messages ++ [⟨s.seq, requestSeq, body⟩] }

def step (bridge : Bridge) (s : Channel) : Event → Channel
  | .send requestSeq lines => { s with requests := s.requests ++ [⟨requestSeq, lines, .reading⟩] }
  | .turn i outcome =>
    match s.requests[i]? with
    | none => s
    | some r =>
      let turned := r.turn bridge s.bps outcome
      { s with
          bps := turned.bps
          requests := s.requests.set i { r with stage := turned.stage }
          log := s.log ++ turned.call.toList.map fun call => (i, call) }.respond r.requestSeq turned.answer

def run (bridge : Bridge) (bps : List Int) (events : List Event) : Channel := events.foldl (step bridge) (init bps)

/-- All requests have been answered. -/
def Answered (s : Channel) : Prop := ∀ r ∈ s.requests, r.stage = .answered

/-- **The last request wins**: the set is what it asks for. -/
def LastWins (s : Channel) (lines : List Int) : Prop := ∀ line, line ∈ s.bps ↔ line ∈ lines

end Channel

/-! ## What is behind a request's own calls -/

/-- The line of a call that changes the set. -/
def Call.line : Call → Option Int
  | .getBreakpoints => none
  | .removeBreakpoint ip => some ip
  | .addBreakpoint ip => some ip

/-- The request's own calls that settle a line: the read, and those on the line. -/
def Call.settles (call : Call) (line : Int) : Bool := call == .getBreakpoints || call.line == some line

/-- The last call of the other requests on the line behind the last one of request `n` that settles it. -/
def behind (n : Nat) (line : Int) (log : List (Nat × Call)) : Option Call :=
  log.foldl (fun last entry =>
    if entry.1 = n then if entry.2.settles line then none else last
    else if entry.2.line = some line then some entry.2 else last) none

theorem behind_snoc (n : Nat) (line : Int) (log : List (Nat × Call)) (i : Nat) (call : Call) :
    behind n line (log ++ [(i, call)]) =
      if i = n then if call.settles line then none else behind n line log
      else if call.line = some line then some call else behind n line log := by
  unfold behind
  rw [foldl_append, foldl_cons, foldl_nil]

theorem behind_own {n : Nat} {line : Int} {log : List (Nat × Call)} {call : Call} (h : call.settles line = true) :
    behind n line (log ++ [(n, call)]) = none := by
  rw [behind_snoc, if_pos rfl, if_pos h]

theorem behind_own_other {n : Nat} {line : Int} {log : List (Nat × Call)} {call : Call}
    (h : call.settles line = false) : behind n line (log ++ [(n, call)]) = behind n line log := by
  rw [behind_snoc, if_pos rfl, if_neg (Bool.eq_false_iff.1 h)]

theorem behind_others {n i : Nat} {line : Int} {log : List (Nat × Call)} {call : Call} (hi : i ≠ n)
    (h : call.line = some line) : behind n line (log ++ [(i, call)]) = some call := by
  rw [behind_snoc, if_neg hi, if_pos h]

theorem behind_others_other {n i : Nat} {line : Int} {log : List (Nat × Call)} {call : Call} (hi : i ≠ n)
    (h : call.line ≠ some line) : behind n line (log ++ [(i, call)]) = behind n line log := by
  rw [behind_snoc, if_neg hi, if_neg h]

/-! ## What the calls do -/

variable {bridge : Bridge} {bps : List Int} {line : Int}

theorem mem_addBreakpoint {ip : Int} : line ∈ bridge.addBreakpoint bps ip ↔ line ∈ bps ∨ line = ip := by
  cases bridge with
  | stub =>
    unfold Bridge.addBreakpoint
    rw [mem_append, mem_singleton]
  | real =>
    unfold Bridge.addBreakpoint
    dsimp only
    by_cases hip : ip ∈ bps
    · rw [contains_iff_mem.2 hip]
      constructor
      · exact Or.inl
      · rintro (h | rfl)
        · exact h
        · exact hip
    · have hcontains : (!bps.contains ip) = true := by
        rw [Bool.not_eq_true', Bool.eq_false_iff]
        exact fun h => hip (contains_iff_mem.1 h)
      rw [if_pos hcontains, mem_append, mem_singleton]

theorem mem_removeBreakpoint {ip : Int} : line ∈ removeBreakpoint bps ip ↔ line ∈ bps ∧ line ≠ ip := by
  unfold removeBreakpoint
  rw [mem_filter, bne_iff_ne]

/-- A call on another line leaves the line alone. -/
theorem mem_apply_other {call : Call} (h : call.line ≠ some line) : line ∈ bridge.apply bps call ↔ line ∈ bps := by
  cases call with
  | getBreakpoints => exact Iff.rfl
  | removeBreakpoint ip =>
    have hne : line ≠ ip := fun heq => h (congrArg some heq.symm)
    exact mem_removeBreakpoint.trans (and_iff_left hne)
  | addBreakpoint ip =>
    have hne : ¬ line = ip := fun heq => h (congrArg some heq.symm)
    exact mem_addBreakpoint.trans (or_iff_left hne)

/-- A call on the line adds it or removes it. -/
theorem mem_apply {call : Call} (h : call.line = some line) :
    line ∈ bridge.apply bps call ↔ call = .addBreakpoint line := by
  cases call with
  | getBreakpoints => cases h
  | removeBreakpoint ip =>
    cases h
    constructor
    · exact fun hmem => absurd rfl (mem_removeBreakpoint.1 hmem).2
    · exact fun heq => by cases heq
  | addBreakpoint ip =>
    cases h
    exact iff_of_true (mem_addBreakpoint.2 (Or.inr rfl)) rfl

/-- A turn changes the set by its call. -/
theorem turn_bps (r : Request) (bridge : Bridge) (bps : List Int) (outcome : Option String) :
    (r.turn bridge bps outcome).bps = (r.turn bridge bps outcome).call.elim bps (bridge.apply bps) := by
  unfold Request.turn
  cases r.stage with
  | reading => cases outcome <;> rfl
  | clearing left => cases left <;> cases outcome <;> rfl
  | adding result left => cases left <;> cases outcome <;> rfl
  | answered => rfl

/-! ## The invariant -/

/-- What a request's own calls have made of the line so far. -/
def Stage.Agrees (lines : List Int) (line : Int) (present : Prop) : Stage → Prop
  | .reading => True
  | .clearing left => present → line ∈ left
  | .adding result _ => present ↔ line ∈ result.map BreakpointResult.line
  | .answered => present ↔ line ∈ lines

/-- Where others were on a line behind the request's own last call, the line is as the last of them left it. Elsewhere it
is as the request left it. -/
structure Tracks (bps : List Int) (log : List (Nat × Call)) (n : Nat) (r : Request) : Prop where
  others : r.stage ≠ .reading → ∀ line call, behind n line log = some call → (line ∈ bps ↔ call = .addBreakpoint line)
  own : ∀ line, behind n line log = none → r.stage.Agrees r.lines line (line ∈ bps)
  lines : ∀ result left, r.stage = .adding result left → result.map BreakpointResult.line ++ left = r.lines

variable {n i : Nat} {r : Request} {log : List (Nat × Call)} {call : Call}

/-- A call of the request leaves what the others have done on the other lines. -/
theorem Tracks.others_own (h : Tracks bps log n r) (hstage : r.stage ≠ .reading) {ip : Int} (hcall : call.line = some ip)
    (line : Int) (last : Call) (hlast : behind n line (log ++ [(n, call)]) = some last) :
    line ∈ bridge.apply bps call ↔ last = .addBreakpoint line := by
  have hne : call.line ≠ some line := by
    intro heq
    have hsettles : call.settles line = true := by
      unfold Call.settles
      rw [heq, beq_self_eq_true, Bool.or_true]
    rw [behind_own hsettles] at hlast
    cases hlast
  have hother : call.settles line = false := by
    unfold Call.settles
    rw [beq_eq_false_iff_ne.2 hne, Bool.or_false]
    apply beq_eq_false_iff_ne.2
    rintro rfl
    cases hcall
  rw [behind_own_other hother] at hlast
  exact (mem_apply_other hne).trans (h.others hstage line last hlast)

/-- A line with nothing behind the request's own calls: it is the one the request has just called, or it was so before. -/
theorem behind_none_own {ip : Int} (hcall : call.line = some ip) (hget : call ≠ .getBreakpoints)
    (h : behind n line (log ++ [(n, call)]) = none) : line = ip ∨ (call.line ≠ some line ∧ behind n line log = none) := by
  by_cases hline : line = ip
  · exact Or.inl hline
  · right
    have hne : call.line ≠ some line := by
      rw [hcall]
      exact fun heq => hline (Option.some.inj heq).symm
    have hother : call.settles line = false := by
      unfold Call.settles
      rw [beq_eq_false_iff_ne.2 hne, beq_eq_false_iff_ne.2 hget]
      rfl
    rw [behind_own_other hother] at h
    exact ⟨hne, h⟩

/-- A turn without a call only changes what the lines are compared with. -/
theorem Tracks.idle (h : Tracks bps log n r) (hnot : r.stage ≠ .reading) {stage : Stage}
    (hown : ∀ line, r.stage.Agrees r.lines line (line ∈ bps) → stage.Agrees r.lines line (line ∈ bps))
    (hlines : ∀ result left, stage = .adding result left → result.map BreakpointResult.line ++ left = r.lines) :
    Tracks bps (log ++ (none : Option Call).toList.map fun call => (n, call)) n { r with stage := stage } := by
  rw [Option.toList_none, map_nil, List.append_nil]
  exact ⟨fun _ => h.others hnot, fun line hbehind => hown line (h.own line hbehind), hlines⟩

/-- **A turn of the request itself.** -/
theorem Tracks.turn (h : Tracks bps log n r) : Tracks (r.turn bridge bps none).bps
    (log ++ (r.turn bridge bps none).call.toList.map fun call => (n, call)) n
    { r with stage := (r.turn bridge bps none).stage } := by
  unfold Request.turn
  cases hstage : r.stage with
  | reading =>
    -- the read is the request's last call on every line, so nothing is behind it
    have hnone : ∀ line, behind n line (log ++ [(n, Call.getBreakpoints)]) = none := fun line => behind_own rfl
    refine ⟨?_, fun _ _ hmem => hmem, fun _ _ heq => by cases heq⟩
    intro _ line call hbehind
    exact absurd ((hnone line).symm.trans hbehind) (Option.some_ne_none call).symm
  | clearing left =>
    have hnot : r.stage ≠ .reading := fun heq => by cases hstage.symm.trans heq
    cases left with
    | nil =>
      -- all lines of the read are removed: none is left, and none is added yet
      apply h.idle hnot
      · intro line hown
        rw [hstage] at hown
        exact iff_of_false (fun hmem => not_mem_nil (hown hmem)) not_mem_nil
      · intro result left heq
        cases heq
        rfl
    | cons ip left =>
      have hothers : ∀ line last, behind n line (log ++ [(n, .removeBreakpoint ip)]) = some last →
          (line ∈ bridge.apply bps (.removeBreakpoint ip) ↔ last = .addBreakpoint line) := h.others_own hnot rfl
      refine ⟨fun _ => hothers, ?_, fun _ _ heq => by cases heq⟩
      intro line hbehind hmem
      obtain ⟨hkept, hne⟩ := mem_removeBreakpoint.1 hmem
      rcases behind_none_own rfl Call.noConfusion hbehind with heq | ⟨_, hbefore⟩
      · exact absurd heq hne
      · have hown := h.own line hbefore
        rw [hstage] at hown
        exact (mem_cons.1 (hown hkept)).resolve_left hne
  | adding result left =>
    have hnot : r.stage ≠ .reading := fun heq => by cases hstage.symm.trans heq
    have hlines := h.lines result left hstage
    cases left with
    | nil =>
      apply h.idle hnot
      · intro line hown
        rw [hstage] at hown
        rw [List.append_nil] at hlines
        exact hlines ▸ hown
      · intro _ _ heq
        cases heq
    | cons ip left =>
      have hothers : ∀ line last, behind n line (log ++ [(n, .addBreakpoint ip)]) = some last →
          (line ∈ bridge.apply bps (.addBreakpoint ip) ↔ last = .addBreakpoint line) := h.others_own hnot rfl
      refine ⟨fun _ => hothers, ?_, ?_⟩
      · intro line hbehind
        change line ∈ bridge.addBreakpoint bps ip ↔ _
        rw [mem_addBreakpoint, map_append, mem_append]
        rcases behind_none_own rfl Call.noConfusion hbehind with heq | ⟨_, hbefore⟩
        · exact iff_of_true (Or.inr heq) (Or.inr (mem_singleton.2 heq))
        · have hown := h.own line hbefore
          rw [hstage] at hown
          exact or_congr hown mem_singleton.symm
      · intro result' left' heq
        cases heq
        rw [map_append, List.append_assoc]
        exact hlines
  | answered =>
    have hnot : r.stage ≠ .reading := fun heq => by cases hstage.symm.trans heq
    apply h.idle hnot
    · intro line hown
      rw [hstage] at hown
      exact hown
    · intro _ _ heq
      cases heq

/-- A turn of another request. -/
theorem Tracks.turn_other (h : Tracks bps log n r) (hi : i ≠ n) (r' : Request) (outcome : Option String) :
    Tracks (r'.turn bridge bps outcome).bps
      (log ++ (r'.turn bridge bps outcome).call.toList.map fun call => (i, call)) n r := by
  rw [turn_bps]
  cases (r'.turn bridge bps outcome).call with
  | none =>
    rw [Option.toList_none, map_nil, List.append_nil]
    exact h
  | some call =>
    change Tracks (bridge.apply bps call) (log ++ [(i, call)]) n r
    refine ⟨?_, ?_, h.lines⟩
    · intro hstage line last hlast
      -- the call is now the last one on its own line, and behind nothing on the others
      by_cases hline : call.line = some line
      · rw [behind_others hi hline] at hlast
        cases hlast
        exact mem_apply hline
      · rw [behind_others_other hi hline] at hlast
        exact (mem_apply_other hline).trans (h.others hstage line last hlast)
    · intro line hnone
      by_cases hline : call.line = some line
      · rw [behind_others hi hline] at hnone
        cases hnone
      · rw [behind_others_other hi hline] at hnone
        have hsame : (line ∈ bridge.apply bps call) = (line ∈ bps) := propext (mem_apply_other hline)
        rw [hsame]
        exact h.own line hnone

namespace Channel

@[simp] theorem respond_bps (s : Channel) (requestSeq : Nat) (answer : Option (Except String (List BreakpointResult))) :
    (s.respond requestSeq answer).bps = s.bps := by cases answer <;> rfl
@[simp] theorem respond_log (s : Channel) (requestSeq : Nat) (answer : Option (Except String (List BreakpointResult))) :
    (s.respond requestSeq answer).log = s.log := by cases answer <;> rfl
@[simp] theorem respond_requests (s : Channel) (requestSeq : Nat)
    (answer : Option (Except String (List BreakpointResult))) :
    (s.respond requestSeq answer).requests = s.requests := by cases answer <;> rfl

/-- All requests are tracked. -/
def Tracked (s : Channel) : Prop := ∀ n r, s.requests[n]? = some r → Tracks s.bps s.log n r

variable {s : Channel}

theorem step_turn {i : Nat} {r : Request} (h : s.requests[i]? = some r) (outcome : Option String) :
    s.step bridge (.turn i outcome) =
      { s with
          bps := (r.turn bridge s.bps outcome).bps
          requests := s.requests.set i { r with stage := (r.turn bridge s.bps outcome).stage }
          log := s.log ++ (r.turn bridge s.bps outcome).call.toList.map fun call => (i, call) }.respond r.requestSeq
        (r.turn bridge s.bps outcome).answer := by
  unfold Channel.step
  dsimp only
  rw [h]

theorem step_turn_none {i : Nat} (h : s.requests[i]? = none) (outcome : Option String) :
    s.step bridge (.turn i outcome) = s := by
  unfold Channel.step
  dsimp only
  rw [h]

theorem Tracked.step (h : s.Tracked) {e : Event} (he : e.Completes) : (s.step bridge e).Tracked := by
  cases e with
  | send requestSeq lines =>
    intro n r hr
    by_cases hn : n < s.requests.length
    · exact h n r ((getElem?_append_left hn).symm.trans hr)
    · -- a new request has not read the set yet
      have hstage : r.stage = .reading := by
        have hmem := mem_of_getElem? ((getElem?_append_right (Nat.le_of_not_lt hn)).symm.trans hr)
        rw [mem_singleton.1 hmem]
      refine ⟨fun hne => absurd hstage hne, ?_, ?_⟩
      · intro _ _
        rw [hstage]
        trivial
      · intro _ _ heq
        rw [hstage] at heq
        cases heq
  | turn i outcome =>
    cases he
    cases hi : s.requests[i]? with
    | none =>
      rw [step_turn_none hi]
      exact h
    | some r' =>
      rw [step_turn hi]
      intro n r hr
      rw [respond_requests, getElem?_set] at hr
      rw [respond_bps, respond_log]
      by_cases heq : i = n
      · subst heq
        rw [if_pos rfl, if_pos (List.getElem?_eq_some_iff.1 hi).1] at hr
        cases hr
        exact (h i r' hi).turn
      · rw [if_neg heq] at hr
        exact (h n r hr).turn_other heq r' none

theorem tracked_run (bridge : Bridge) (bps : List Int) {events : List Event} (h : ∀ e ∈ events, e.Completes) :
    (run bridge bps events).Tracked := by
  induction events using List.reverseRecOn with
  | nil =>
    intro n r hr
    cases hr
  | append_singleton events e ih =>
    unfold run
    rw [foldl_append, foldl_cons, foldl_nil]
    exact (ih fun e he => h e (mem_append_left _ he)).step (h e (mem_append_right _ (mem_singleton_self e)))

/-! ## Whole runs -/

/-- No other request has the last word on a line behind the calls of request `n`, unless it leaves the line as asked. -/
def LeftAlone (s : Channel) (n : Nat) (lines : List Int) : Prop :=
  ∀ line call, behind n line s.log = some call → (call = .addBreakpoint line ↔ line ∈ lines)

/-- An answered request wins exactly where the others leave its lines alone. -/
theorem Tracked.wins_iff (h : s.Tracked) {n : Nat} {r : Request} (hr : s.requests[n]? = some r)
    (hstage : r.stage = .answered) : s.LastWins r.lines ↔ s.LeftAlone n r.lines := by
  have htracks := h n r hr
  have hnot : r.stage ≠ .reading := by
    rw [hstage]
    exact Stage.noConfusion
  constructor
  · intro hwins line call hcall
    exact (htracks.others hnot line call hcall).symm.trans (hwins line)
  · intro halone line
    cases hbehind : behind n line s.log with
    | some call => exact (htracks.others hnot line call hbehind).trans (halone line call hbehind)
    | none =>
      have hown := htracks.own line hbehind
      rw [hstage] at hown
      exact hown

/-- **The last request wins exactly where the earlier ones leave its lines alone**, for all requests and every order of
their calls, once all have been answered. -/
theorem lastWins_iff (bridge : Bridge) (bps : List Int) {events : List Event} (h : ∀ e ∈ events, e.Completes)
    (hanswered : (run bridge bps events).Answered) {r : Request}
    (hlast : (run bridge bps events).requests.getLast? = some r) :
    (run bridge bps events).LastWins r.lines ↔
      (run bridge bps events).LeftAlone ((run bridge bps events).requests.length - 1) r.lines := by
  rw [getLast?_eq_getElem?] at hlast
  exact (tracked_run bridge bps h).wins_iff hlast (hanswered r (mem_of_getElem? hlast))

/-- Requests that make no call behind the read of the last one leave its lines alone. -/
theorem leftAlone_of_quiet {n : Nat} {before after : List (Nat × Call)}
    (hlog : s.log = before ++ (n, .getBreakpoints) :: after) (hown : ∀ entry ∈ after, entry.1 = n) (lines : List Int) :
    s.LeftAlone n lines := by
  have hnone : ∀ line, behind n line s.log = none := by
    intro line
    rw [hlog]
    clear hlog
    induction after using List.reverseRecOn with
    | nil => exact behind_own rfl
    | append_singleton after entry ih =>
      obtain ⟨i, call⟩ := entry
      have hi : i = n := hown (i, call) (mem_append_right _ (mem_singleton_self _))
      have hbefore := ih fun e he => hown e (mem_append_left _ he)
      rw [← cons_append, ← List.append_assoc, behind_snoc, if_pos hi]
      by_cases hsettles : call.settles line = true
      · rw [if_pos hsettles]
      · rw [if_neg hsettles]
        exact hbefore
  intro line call hcall
  rw [hnone line] at hcall
  cases hcall

/-- The second request is sent when the first has read the set, and removes what the first has added since. -/
theorem lastWins_iff_late : (run .real [5] [.send 1 [3], .turn 0 none, .turn 0 none, .turn 0 none, .turn 0 none,
    .send 2 [7], .turn 1 none, .turn 1 none, .turn 1 none, .turn 0 none, .turn 1 none, .turn 1 none]).LastWins [7] := by
  apply (lastWins_iff .real [5] (by decide) (by unfold Answered; decide) (r := ⟨2, [7], .answered⟩) (by decide)).2
  have hlog : (run .real [5] [.send 1 [3], .turn 0 none, .turn 0 none, .turn 0 none, .turn 0 none, .send 2 [7],
      .turn 1 none, .turn 1 none, .turn 1 none, .turn 0 none, .turn 1 none, .turn 1 none]).log =
      [(0, .getBreakpoints), (0, .removeBreakpoint 5), (0, .addBreakpoint 3)] ++
        (1, .getBreakpoints) :: [(1, .removeBreakpoint 3), (1, .addBreakpoint 7)] := rfl
  exact leftAlone_of_quiet hlog (by decide) _

/-- Two requests, the second sent before the first has made its call. -/
def overlap : List Event :=
  [.send 1 [3], .send 2 [7], .turn 0 none, .turn 1 none, .turn 0 none, .turn 0 none, .turn 0 none, .turn 1 none,
    .turn 1 none, .turn 1 none]

/-- Both requests read an empty set, and both lines stay. -/
theorem lastWins_fails : ¬ ∀ (bridge : Bridge) (bps : List Int) (events : List Event), (∀ e ∈ events, e.Completes) →
    (run bridge bps events).Answered → ∀ r, (run bridge bps events).requests.getLast? = some r →
      (run bridge bps events).LastWins r.lines := by
  intro h
  have hwins := h .real [] overlap (by decide) (by unfold Answered; decide) ⟨2, [7], .answered⟩ (by decide) 3
  have hthree : (3 : Int) ∈ (run .real [] overlap).bps := by decide
  exact absurd (hwins.1 hthree) (by decide)

end Channel

end Audesys.Debug
