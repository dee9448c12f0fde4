import Audesys.Lib.Edits
import Audesys.Runtime.Engine
import Audesys.Runtime.Ipc.Utf8

/-!
# `Runtime.Config` — the configuration file and what the engine hears of it

`config.rs`. `ConfigWatcher` polls the modification time of the file; a new version that loads is compared with the
configuration it remembers, and the fields that differ go to the engine as commands. `Settings.apply` is what the
commands mean, and `Follows` what the watcher is for: the engine has the fields of the last valid version, and hears of
no other.

The watcher remembers each version that parsed, valid or not, and starts from the default configuration, whatever the
process was started with. So the engine follows the file exactly in the runs that `Told` describes (`follows_iff`).
-/

open List

namespace Audesys.Runtime

open Audesys.Hal Audesys.Lib

variable {mtime : Int}

/-! ## Configurations -/

structure ChildConfig where
  name : String
  program : String
  args : List String
  deriving DecidableEq

structure RuntimeConfig where
  halConfigPath : String
  healthPort : UInt16
  cycleIntervalMs : UInt64
  children : List ChildConfig
  startupLockLevel : String
  shutdownTimeoutMs : UInt64
  deriving DecidableEq

namespace RuntimeConfig

/-- `RuntimeConfig::default`. -/
def default : RuntimeConfig where
  halConfigPath := "config/hal.yaml"
  healthPort := 9100
  cycleIntervalMs := 10
  children := []
  startupLockLevel := "none"
  shutdownTimeoutMs := 5000

def validLevels : List String := ["none", "load", "config", "params", "run", "all"]

def validate (c : RuntimeConfig) : Except String Unit :=
  if c.cycleIntervalMs = 0 then .error "cycle_interval_ms must be positive"
  else if !validLevels.contains c.startupLockLevel then
    .error ("Invalid startup_lock_level '" ++ c.startupLockLevel ++
      "'. Must be one of: [\"none\", \"load\", \"config\", \"params\", \"run\", \"all\"]")
  else if c.shutdownTimeoutMs = 0 then .error "shutdown_timeout_ms must be positive"
  else .ok ()

/-- `validate` accepts the configuration. -/
def Valid (c : RuntimeConfig) : Prop := c.validate = .ok ()

theorem valid_iff_fields {c : RuntimeConfig} :
    c.Valid ↔ c.cycleIntervalMs ≠ 0 ∧ c.startupLockLevel ∈ validLevels ∧ c.shutdownTimeoutMs ≠ 0 := by
  unfold Valid validate
  by_cases hcycle : c.cycleIntervalMs = 0
  · rw [if_pos hcycle]
    exact ⟨fun h => (by cases h), fun h => absurd hcycle h.1⟩
  rw [if_neg hcycle]
  by_cases hlevel : c.startupLockLevel ∈ validLevels
  · have hcontains : ¬ (!validLevels.contains c.startupLockLevel) = true := by
      rw [contains_iff_mem.2 hlevel]
      exact Bool.false_ne_true
    rw [if_neg hcontains]
    by_cases hshutdown : c.shutdownTimeoutMs = 0
    · rw [if_pos hshutdown]
      exact ⟨fun h => (by cases h), fun h => absurd hshutdown h.2.2⟩
    · rw [if_neg hshutdown]
      exact ⟨fun _ => ⟨hcycle, hlevel, hshutdown⟩, fun _ => rfl⟩
  · have hcontains : (!validLevels.contains c.startupLockLevel) = true := by
      rw [Bool.not_eq_true', Bool.eq_false_iff]
      exact fun h => hlevel (contains_iff_mem.1 h)
    rw [if_pos hcontains]
    exact ⟨fun h => (by cases h), fun h => absurd h.2.1 hlevel⟩

instance (c : RuntimeConfig) : Decidable c.Valid := decidable_of_iff' _ valid_iff_fields

/-- Every default passes its own check. -/
theorem default_valid : default.Valid := rfl

/-- `diff_commands`: the fields in which the configuration differs from `previous`. -/
def diffCommands (c previous : RuntimeConfig) : List ConfigCommand :=
  let path : List ConfigCommand :=
    if c.halConfigPath ≠ previous.halConfigPath then [⟨1, "loadComponent", c.halConfigPath.toUTF8.toList⟩] else []
  let nextId : UInt64 := if c.halConfigPath ≠ previous.halConfigPath then 2 else 1
  if c.cycleIntervalMs ≠ previous.cycleIntervalMs then
    path ++ [⟨nextId, "setCycleInterval", MachineInt.toLeBytes c.cycleIntervalMs⟩]
  else path

end RuntimeConfig

/-! ## What the commands mean -/

/-- The two fields of a configuration that commands carry. -/
@[ext] structure Settings where
  halConfigPath : String
  cycleIntervalMs : UInt64
  deriving DecidableEq

def RuntimeConfig.settings (c : RuntimeConfig) : Settings := ⟨c.halConfigPath, c.cycleIntervalMs⟩

/-- A command, applied. -/
def Settings.apply (s : Settings) (cmd : ConfigCommand) : Settings :=
  if cmd.method = "loadComponent" then { s with halConfigPath := Ipc.lossyString cmd.params }
  else if cmd.method = "setCycleInterval" then { s with cycleIntervalMs := MachineInt.ofLeBytes cmd.params }
  else s

theorem Settings.apply_path (s : Settings) (id : UInt64) (path : String) :
    s.apply ⟨id, "loadComponent", path.toUTF8.toList⟩ = { s with halConfigPath := path } := by
  unfold Settings.apply
  rw [if_pos rfl, Ipc.lossyString_toUTF8]

theorem Settings.apply_cycle (s : Settings) (id cycle : UInt64) :
    s.apply ⟨id, "setCycleInterval", MachineInt.toLeBytes cycle⟩ = { s with cycleIntervalMs := cycle } := by
  have hmethod : ¬ "setCycleInterval" = "loadComponent" := by decide
  unfold Settings.apply
  rw [if_neg hmethod, if_pos rfl, ofLeBytes_toLeBytes]

/-- A field that differs from the one before is told, and the other ones stay as the engine has them. -/
theorem apply_diffCommands (c previous : RuntimeConfig) (s : Settings) :
    (c.diffCommands previous).foldl Settings.apply s =
      ⟨if c.halConfigPath = previous.halConfigPath then s.halConfigPath else c.halConfigPath,
        if c.cycleIntervalMs = previous.cycleIntervalMs then s.cycleIntervalMs else c.cycleIntervalMs⟩ := by
  unfold RuntimeConfig.diffCommands
  dsimp only
  by_cases hpath : c.halConfigPath = previous.halConfigPath
  · rw [if_neg (not_not.2 hpath), if_pos hpath]
    by_cases hcycle : c.cycleIntervalMs = previous.cycleIntervalMs
    · rw [if_neg (not_not.2 hcycle), if_pos hcycle]
      rfl
    · rw [if_pos hcycle, if_neg hcycle, nil_append, foldl_cons, Settings.apply_cycle]
      rfl
  · rw [if_pos hpath, if_neg hpath]
    by_cases hcycle : c.cycleIntervalMs = previous.cycleIntervalMs
    · rw [if_neg (not_not.2 hcycle), if_pos hcycle, foldl_cons, Settings.apply_path]
      rfl
    · rw [if_pos hcycle, if_neg hcycle, singleton_append, foldl_cons, Settings.apply_path, foldl_cons,
        Settings.apply_cycle]
      rfl

theorem diffCommands_eq_nil {c previous : RuntimeConfig} :
    c.diffCommands previous = [] ↔ c.settings = previous.settings := by
  unfold RuntimeConfig.diffCommands RuntimeConfig.settings
  rw [Settings.mk.injEq]
  by_cases hpath : c.halConfigPath = previous.halConfigPath <;>
    by_cases hcycle : c.cycleIntervalMs = previous.cycleIntervalMs <;>
    simp [hpath, hcycle]

/-! ## The watcher -/

/-- What a poll finds: no file, a file without a modification time, or a file with one and what `RuntimeConfig::load`
makes of it. A version that cannot be read or parsed loads as `none`; the message is dropped. -/
inductive Poll where
  | missing
  | timeless
  | present (mtime : Int) (loaded : Option RuntimeConfig)
  deriving DecidableEq

/-- `last_mtime` and `last_config` of the watcher's thread. -/
structure Watcher where
  lastMtime : Option Int
  lastConfig : RuntimeConfig
  deriving DecidableEq

namespace Watcher

/-- `start`. -/
def start : Watcher := ⟨none, .default⟩

/-- One round of the loop: the watcher behind it and the commands that are sent. -/
def poll (w : Watcher) : Poll → Watcher × List ConfigCommand
  | .missing => (w, [])
  | .timeless => (w, [])
  | .present mtime loaded =>
    if w.lastMtime = some mtime then (w, [])
    else
      match loaded with
      | some new => (⟨some mtime, new⟩, new.diffCommands w.lastConfig)
      -- the modification time is kept, the version is not tried again
      | none => ({ w with lastMtime := some mtime }, [])

end Watcher

/-! ## Runs -/

/-- The watcher with the history of the file: the last version a poll has seen, the last one that parsed and was valid
(at the start the configuration of the process), and the commands sent so far, each with the version it is from. -/
structure Watched where
  watcher : Watcher
  seen : Option (Int × Option RuntimeConfig)
  valid : RuntimeConfig
  sent : List (ConfigCommand × RuntimeConfig)

namespace Watched

def init (c₀ : RuntimeConfig) : Watched := ⟨.start, none, c₀, []⟩

/-- The version a poll sees. -/
def look (s : Watched) : Poll → Option (Int × Option RuntimeConfig)
  | .present mtime loaded => some (mtime, loaded)
  | _ => s.seen

/-- The last valid version, the one a poll sees included. -/
def judge (s : Watched) : Poll → RuntimeConfig
  | .present _ (some new) => if new.Valid then new else s.valid
  | _ => s.valid

/-- The commands of a poll with the version they are from. -/
def tell (s : Watched) (p : Poll) : List (ConfigCommand × RuntimeConfig) :=
  match p with
  | .present _ (some new) => (s.watcher.poll p).2.map fun cmd => (cmd, new)
  | _ => []

def step (s : Watched) (p : Poll) : Watched where
  watcher := (s.watcher.poll p).1
  seen := s.look p
  valid := s.judge p
  sent := s.sent ++ s.tell p

/-- What the engine has when it has applied all commands. -/
def applied (c₀ : RuntimeConfig) (s : Watched) : Settings :=
  (s.sent.map Prod.fst).foldl Settings.apply c₀.settings

/-- **The engine follows the file**: it has the fields of the last valid version, and no command is from a version that
`validate` rejects. -/
def Follows (c₀ : RuntimeConfig) (s : Watched) : Prop :=
  s.applied c₀ = s.valid.settings ∧ ∀ sent ∈ s.sent, sent.2.Valid

/-- A version with the modification time of the one seen last is that version. -/
def NewTime (s : Watched) (p : Poll) : Prop :=
  ∀ mtime loaded, p = .present mtime loaded → ∀ before, s.seen = some (mtime, before) → loaded = before

/-- Where the engine hears what it must: of an invalid version nothing is different from the version that parsed before
it (the default configuration at first), and each field of a valid one is different from there or is as in the last
valid version. -/
def Told (s : Watched) (p : Poll) : Prop :=
  ∀ mtime new, p = .present mtime (some new) → s.watcher.lastMtime ≠ some mtime →
    if new.Valid then
      (new.halConfigPath = s.watcher.lastConfig.halConfigPath → new.halConfigPath = s.valid.halConfigPath) ∧
        (new.cycleIntervalMs = s.watcher.lastConfig.cycleIntervalMs → new.cycleIntervalMs = s.valid.cycleIntervalMs)
    else new.settings = s.watcher.lastConfig.settings

/-- The engine follows the file, and the version seen last is taken into account. -/
structure InStep (c₀ : RuntimeConfig) (s : Watched) : Prop where
  follows : s.Follows c₀
  mtime : s.watcher.lastMtime = s.seen.map Prod.fst
  judged : ∀ mtime new, s.seen = some (mtime, some new) → new.Valid → s.valid = new

theorem inStep_init (c₀ : RuntimeConfig) : InStep c₀ (init c₀) where
  follows := ⟨rfl, fun _ h => absurd h not_mem_nil⟩
  mtime := rfl
  judged := fun _ _ h => by cases h

variable {c₀ : RuntimeConfig} {s : Watched} {p : Poll}

theorem poll_same (h : s.watcher.lastMtime = some mtime) (loaded : Option RuntimeConfig) :
    s.watcher.poll (.present mtime loaded) = (s.watcher, []) := if_pos h

theorem poll_new (h : s.watcher.lastMtime ≠ some mtime) (new : RuntimeConfig) :
    s.watcher.poll (.present mtime (some new)) = (⟨some mtime, new⟩, new.diffCommands s.watcher.lastConfig) := if_neg h

theorem poll_unloaded (s : Watched) (mtime : Int) :
    s.watcher.poll (.present mtime none) = ({ s.watcher with lastMtime := some mtime }, []) := by
  unfold Watcher.poll
  dsimp only
  by_cases h : s.watcher.lastMtime = some mtime
  · rw [if_pos h, ← h]
  · rw [if_neg h]

/-- No command is made outside the versions that load. -/
theorem map_tell (s : Watched) (p : Poll) : (s.tell p).map Prod.fst = (s.watcher.poll p).2 := by
  cases p with
  | missing => rfl
  | timeless => rfl
  | present mtime loaded =>
    cases loaded with
    | some new =>
      unfold tell
      dsimp only
      rw [map_map]
      exact map_id _
    | none =>
      rw [poll_unloaded]
      rfl

theorem applied_step (c₀ : RuntimeConfig) (s : Watched) (p : Poll) :
    (s.step p).applied c₀ = (s.watcher.poll p).2.foldl Settings.apply (s.applied c₀) := by
  unfold applied step
  rw [map_append, foldl_append, map_tell]

/-! ### One poll -/

/-- A poll that sends nothing and judges nothing leaves the engine in step. -/
theorem InStep.quiet (h : InStep c₀ s) (hpoll : (s.watcher.poll p).2 = []) (hvalid : s.judge p = s.valid)
    (hmtime : (s.watcher.poll p).1.lastMtime = (s.look p).map Prod.fst)
    (hjudged : ∀ mtime new, s.look p = some (mtime, some new) → new.Valid → s.valid = new) : InStep c₀ (s.step p) := by
  have htell : s.tell p = [] := by
    rw [← map_eq_nil_iff (f := Prod.fst), map_tell, hpoll]
  refine ⟨⟨?_, ?_⟩, hmtime, ?_⟩
  · rw [applied_step, hpoll]
    exact h.follows.1.trans (congrArg _ hvalid.symm)
  · unfold step
    dsimp only
    rw [htell, List.append_nil]
    exact h.follows.2
  · intro mtime new hseen hnew
    exact hvalid.trans (hjudged mtime new hseen hnew)

/-- A version that is new to the watcher. The engine has the fields that are told, and keeps the others. -/
theorem applied_new (h : s.watcher.lastMtime ≠ some mtime) (new : RuntimeConfig) :
    (s.step (.present mtime (some new))).applied c₀ =
      ⟨if new.halConfigPath = s.watcher.lastConfig.halConfigPath then (s.applied c₀).halConfigPath
        else new.halConfigPath,
        if new.cycleIntervalMs = s.watcher.lastConfig.cycleIntervalMs then (s.applied c₀).cycleIntervalMs
        else new.cycleIntervalMs⟩ := by
  rw [applied_step, poll_new h]
  exact apply_diffCommands ..

theorem tell_new (h : s.watcher.lastMtime ≠ some mtime) (new : RuntimeConfig) :
    s.tell (.present mtime (some new)) = (new.diffCommands s.watcher.lastConfig).map fun cmd => (cmd, new) := by
  unfold tell
  dsimp only
  rw [poll_new h]

/-- A new version keeps the engine in step exactly where the engine hears what it must. -/
theorem InStep.new_iff (h : InStep c₀ s) (htime : s.watcher.lastMtime ≠ some mtime)
    (new : RuntimeConfig) : (s.step (.present mtime (some new))).Follows c₀ ↔ s.Told (.present mtime (some new)) := by
  have hsent : (∀ sent ∈ (s.step (.present mtime (some new))).sent, sent.2.Valid) ↔
      (new.settings ≠ s.watcher.lastConfig.settings → new.Valid) := by
    unfold step
    dsimp only
    rw [tell_new htime]
    constructor
    · intro hall hne
      obtain ⟨cmd, hcmd⟩ := exists_mem_of_ne_nil _ fun hnil => hne (diffCommands_eq_nil.1 hnil)
      exact hall (cmd, new) (mem_append_right _ (mem_map_of_mem hcmd))
    · intro hvalid sent hmem
      rcases mem_append.1 hmem with hold | hnew
      · exact h.follows.2 sent hold
      · obtain ⟨cmd, hcmd, rfl⟩ := mem_map.1 hnew
        apply hvalid
        intro heq
        rw [diffCommands_eq_nil.2 heq] at hcmd
        exact not_mem_nil hcmd
  have htold : s.Told (.present mtime (some new)) ↔
      if new.Valid then
        (new.halConfigPath = s.watcher.lastConfig.halConfigPath → new.halConfigPath = s.valid.halConfigPath) ∧
          (new.cycleIntervalMs = s.watcher.lastConfig.cycleIntervalMs → new.cycleIntervalMs = s.valid.cycleIntervalMs)
      else new.settings = s.watcher.lastConfig.settings := by
    constructor
    · exact fun htold => htold mtime new rfl htime
    · intro htold mtime' new' heq _
      cases heq
      exact htold
  unfold Follows
  rw [hsent, htold, applied_new htime, h.follows.1]
  unfold step judge RuntimeConfig.settings
  dsimp only
  by_cases hvalid : new.Valid
  · rw [if_pos hvalid, if_pos hvalid, Settings.mk.injEq, and_iff_left fun _ => hvalid]
    -- a field that is not told is the one the engine has
    refine and_congr ?_ ?_
    · by_cases hpath : new.halConfigPath = s.watcher.lastConfig.halConfigPath
      · rw [if_pos hpath]
        exact ⟨fun heq _ => heq.symm, fun hkept => (hkept hpath).symm⟩
      · rw [if_neg hpath]
        exact ⟨fun _ heq => absurd heq hpath, fun _ => rfl⟩
    · by_cases hcycle : new.cycleIntervalMs = s.watcher.lastConfig.cycleIntervalMs
      · rw [if_pos hcycle]
        exact ⟨fun heq _ => heq.symm, fun hkept => (hkept hcycle).symm⟩
      · rw [if_neg hcycle]
        exact ⟨fun _ heq => absurd heq hcycle, fun _ => rfl⟩
  · rw [if_neg hvalid, if_neg hvalid]
    constructor
    · exact fun hfollows => not_not.1 fun hne => hvalid (hfollows.2 hne)
    · intro heq
      obtain ⟨hpath, hcycle⟩ := Settings.mk.inj heq
      rw [if_pos hpath, if_pos hcycle]
      exact ⟨rfl, fun hne => absurd heq hne⟩

/-- The polls that do not load a new version change nothing the engine knows of. -/
theorem InStep.other (h : InStep c₀ s) (hnew : s.NewTime p)
    (hother : ∀ mtime new, p = .present mtime (some new) → s.watcher.lastMtime = some mtime) : InStep c₀ (s.step p) := by
  cases p with
  | missing => exact h.quiet rfl rfl h.mtime h.judged
  | timeless => exact h.quiet rfl rfl h.mtime h.judged
  | present mtime loaded =>
    cases loaded with
    | none =>
      apply h.quiet
      · rw [poll_unloaded]
      · rfl
      · rw [poll_unloaded]
        rfl
      · intro _ _ hlook
        cases hlook
    | some new =>
      have htime := hother mtime new rfl
      -- the version was seen before, and if it is valid it is the last valid one
      have hseen : s.seen = some (mtime, some new) := by
        rw [h.mtime] at htime
        obtain ⟨⟨mtime', before⟩, hseen, rfl⟩ := Option.map_eq_some_iff.1 htime
        rw [hseen, hnew _ _ rfl before hseen]
      have hvalid : new.Valid → s.valid = new := h.judged mtime new hseen
      apply h.quiet
      · rw [poll_same htime]
      · unfold judge
        dsimp only
        by_cases hv : new.Valid
        · rw [if_pos hv, hvalid hv]
        · rw [if_neg hv]
      · rw [poll_same htime]
        exact htime
      · intro _ _ hlook hv
        cases hlook
        exact hvalid hv

theorem InStep.keep (h : InStep c₀ s) (hnew : s.NewTime p) (htold : s.Told p) : InStep c₀ (s.step p) := by
  by_cases hload : ∃ mtime new, p = .present mtime (some new) ∧ s.watcher.lastMtime ≠ some mtime
  · obtain ⟨mtime, new, rfl, htime⟩ := hload
    refine ⟨(h.new_iff htime new).2 htold, ?_, ?_⟩
    · unfold step
      dsimp only
      rw [poll_new htime]
      rfl
    · intro _ _ hseen hv
      cases hseen
      exact if_pos hv
  · apply h.other hnew
    intro mtime new heq
    by_contra htime
    exact hload ⟨mtime, new, heq, htime⟩

theorem InStep.told (h : InStep c₀ s) (hfollows : (s.step p).Follows c₀) : s.Told p := by
  intro mtime new heq htime
  subst heq
  exact (h.new_iff htime new).1 hfollows mtime new rfl htime

/-! ## Whole histories -/

/-- **The engine follows the file exactly where it hears what it must**, for every configuration the process was started
with and every history of the file. -/
theorem follows_iff (c₀ : RuntimeConfig) {history : List Poll} (h : EveryStep step NewTime (init c₀) history) :
    Always step (Follows c₀) (init c₀) history ↔ EveryStep step Told (init c₀) history :=
  always_iff_of (I := InStep c₀) (fun _ hs => hs.follows) (fun _ _ hnew hs htold => hs.keep hnew htold)
    (fun _ _ _ hs hfollows => hs.told hfollows) (inStep_init c₀) h

/-- Two versions behind a file that could not be parsed. -/
theorem follows_iff_edited :
    Always step (Follows .default) (init .default) [.present 1 none, .present 2 (some { RuntimeConfig.default with
      cycleIntervalMs := 20 }), .present 2 (some { RuntimeConfig.default with cycleIntervalMs := 20 })] := by
  apply (follows_iff .default ?_).2
  · refine everyStep_cons.2 ⟨?_, everyStep_cons.2 ⟨?_, everyStep_singleton.2 ?_⟩⟩
    · intro _ _ heq
      cases heq
    · intro _ _ heq _
      cases heq
      rw [if_pos (RuntimeConfig.valid_iff_fields.2 (by decide))]
      exact ⟨fun _ => rfl, fun hcycle => absurd hcycle (by decide)⟩
    · intro _ _ heq htime
      cases heq
      exact absurd rfl htime
  · refine everyStep_cons.2 ⟨?_, everyStep_cons.2 ⟨?_, everyStep_singleton.2 ?_⟩⟩
    · intro _ _ _ before hseen
      cases hseen
    · intro _ _ heq before hseen
      cases heq
      cases hseen
    · intro _ _ heq before hseen
      cases heq
      cases hseen
      rfl

/-- A version with no cycle time. -/
def zeroCycle : RuntimeConfig := { RuntimeConfig.default with cycleIntervalMs := 0 }

/-- `validate` rejects a cycle time of zero, and the watcher sends it to the engine. -/
theorem follows_fails : ¬ ∀ (c₀ : RuntimeConfig) (history : List Poll),
    EveryStep step NewTime (init c₀) history → Always step (Follows c₀) (init c₀) history := by
  intro h
  have hnew : EveryStep step NewTime (init .default) [.present 1 (some zeroCycle)] := by
    refine everyStep_singleton.2 ?_
    intro _ _ _ before hseen
    cases hseen
  obtain ⟨happlied, _⟩ := h .default [.present 1 (some zeroCycle)] hnew _ (prefix_refl _)
  have hkept : ((init .default).step (.present 1 (some zeroCycle))).applied .default = ⟨"config/hal.yaml", 0⟩ := by
    rw [applied_new (by decide)]
    rfl
  have hsame := hkept.symm.trans happlied
  exact absurd hsame (by decide)

end Watched

end Audesys.Runtime
