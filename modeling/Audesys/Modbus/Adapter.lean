import Audesys.Hal.Host
import Audesys.Modbus.Mapping

/-!
# `Modbus.Adapter` — poll rounds against the signal cache

The poll loop of `ModbusAdapter::start`. A round polls the mappings in order; a Read mapping publishes what the
device says, a Write mapping writes the registers of its signal unless the cache holds the signal's value. The
cache has one entry for each signal *name*, whoever put it there, so what it says about a signal need not be true
of the address of a mapping: two Write mappings that share a signal, a Read mapping that names the signal of a
Write mapping, and two mappings on one address all get a device out of step.

`pollRound_writes` says what a round with a steady signal table writes: a mapping whose signal was polled earlier
in the round is skipped, any other is skipped if the entry from before the round equals the value. `inStep_iff`
makes of it the exact account of when the device is in step after a round.
-/

namespace Audesys.Modbus

open Audesys.Hal

variable [Target]
variable {cache : String → Option HalValue} {table : String → Option HalValue} {pre : List Poll}
    {ps : List Poll} {a : ModbusAdapter} {p : Poll} {v : HalValue}

/-! ## Configuration -/

inductive RegisterMappingType where
  | coil | discreteInput | holdingRegister | inputRegister
  deriving DecidableEq

inductive SignalDirection where
  | read | write
  deriving DecidableEq

structure RegisterMapping where
  signalName : String
  registerType : RegisterMappingType
  address : UInt16
  count : UInt16
  direction : SignalDirection
  deriving DecidableEq

/-! ## A poll -/

/-- What one poll meets: the client's library, and the answers of the transport. The signal table belongs to all
    components, so it may say something else at each poll. -/
structure PollEnv where
  ffi : Ffi
  publish : Except String Unit
  /-- What `read_signal` answers; nothing the adapter does depends on the time stamp. -/
  reading : Except String (Option HalValue)

/-- A call to the client and how it ended. -/
inductive ClientCall where
  | read (ok : Bool)
  | write (address : UInt16) (registers : List UInt16) (outcome : WriteOutcome)
  deriving DecidableEq

def ClientCall.Ok : ClientCall → Bool
  | .read ok => ok
  | .write _ _ outcome => outcome == .done

/-- The signal cache, without the time stamps that nothing looks at, and the calls made to the client so far. -/
structure ModbusAdapter where
  signalCache : String → Option HalValue
  calls : List ClientCall

namespace ModbusAdapter

def new : ModbusAdapter := ⟨fun _ => none, []⟩

/-- `insert` into the cache. -/
def insert (a : ModbusAdapter) (name : String) (value : HalValue) : ModbusAdapter :=
  { a with signalCache := fun n => if n = name then some value else a.signalCache n }

def logged (a : ModbusAdapter) (call : ClientCall) : ModbusAdapter := { a with calls := a.calls ++ [call] }

end ModbusAdapter

/-- The value that a read poll makes of the device's answer, and the success of the client call. -/
def readValue (mapping : RegisterMapping) (ffi : Ffi) : Bool × Except ModbusError HalValue :=
  match mapping.registerType with
  | .coil | .discreteInput =>
    match ffi.bits mapping.count with
    | .error e => (false, .error e)
    | .ok bits => (true, .ok (coilsToHalvalue (bits.map fun b => if b then 1 else 0)))
  | .holdingRegister | .inputRegister =>
    match ffi.registers mapping.count with
    | .error e => (false, .error e)
    | .ok regs => (true, registersToU16 regs)

/-- `poll_read` -/
def pollRead (a : ModbusAdapter) (mapping : RegisterMapping) (env : PollEnv) :
    ModbusAdapter × Except ModbusError Unit :=
  let (ok, result) := readValue mapping env.ffi
  let a := a.logged (.read ok)
  match result with
  | .error e => (a, .error e)
  | .ok value =>
    match env.publish with
    | .error e => (a, .error (.io ("publish failed: " ++ e)))
    | .ok () => (a.insert mapping.signalName value, .ok ())

/-- `cache_map.get(..).is_some_and(|(cached_val, _)| *cached_val == value)` -/
def unchanged (cached : Option HalValue) (value : HalValue) : Bool :=
  match cached with
  | none => false
  | some u => HalValue.beq u value

/-- `poll_write` -/
def pollWrite (a : ModbusAdapter) (mapping : RegisterMapping) (env : PollEnv) :
    ModbusAdapter × Except ModbusError Unit :=
  match env.reading with
  | .error e => (a, .error (.io ("read_signal failed: " ++ e)))
  | .ok none => (a, .ok ())
  | .ok (some value) =>
    if unchanged (a.signalCache mapping.signalName) value then (a, .ok ())
    else
      match halvalueToRegisters value with
      | .error e => (a, .error e)
      | .ok (registers, _) =>
        let outcome :=
          if registers.length = 1 then env.ffi.writeSingleRegister else env.ffi.writeMultipleRegisters registers
        let a := a.logged (.write mapping.address registers outcome)
        match outcome with
        | .refused e => (a, .error e)
        | .failed e => (a, .error e)
        | .done => (a.insert mapping.signalName value, .ok ())

/-- A mapping and what its poll meets. -/
structure Poll where
  mapping : RegisterMapping
  env : PollEnv

/-- The loop body. An error is printed and the round goes on. -/
def poll (a : ModbusAdapter) (p : Poll) : ModbusAdapter :=
  match p.mapping.direction with
  | .read => (pollRead a p.mapping p.env).1
  | .write => (pollWrite a p.mapping p.env).1

/-- The loop over the mappings, from an adapter `a` on. -/
def pollRound (a : ModbusAdapter) (polls : List Poll) : ModbusAdapter := polls.foldl poll a

/-- The polls of a round; `env i` is what the `i`-th mapping meets. -/
def polls (mappings : List RegisterMapping) (env : Nat → PollEnv) : List Poll :=
  mappings.mapIdx fun i mapping => ⟨mapping, env i⟩

/-- The rounds of `start`, one environment for each. -/
def run (mappings : List RegisterMapping) (rounds : List (Nat → PollEnv)) : ModbusAdapter :=
  rounds.foldl (fun a env => pollRound a (polls mappings env)) .new

/-! ## What a round promises -/

/-- The register writes that were sent to an address: refused calls send nothing. -/
def sentTo (address : UInt16) (calls : List ClientCall) : List (List UInt16) :=
  calls.filterMap fun
    | .write target registers outcome =>
      match outcome with
      | .refused _ => none
      | _ => if target = address then some registers else none
    | .read _ => none

/-- Every client call of the round succeeds. -/
def Clean (a : ModbusAdapter) (ps : List Poll) : Prop :=
  ∀ call ∈ (pollRound a ps).calls.drop a.calls.length, call.Ok = true

/-- No signal changes during the round: each poll reads the value of `table`, and what is published is there. -/
def Steady (table : String → Option HalValue) (ps : List Poll) : Prop :=
  ∀ p ∈ ps, match p.mapping.direction with
    | .write => ∀ r, p.env.reading = .ok r → r = table p.mapping.signalName
    | .read => ∀ v, (readValue p.mapping p.env.ffi).2 = .ok v → p.env.publish = .ok () →
        table p.mapping.signalName = some v

/-- The value that a Write mapping to a holding register has to bring to its address. -/
def Poll.Due (p : Poll) (registers : List UInt16) : Prop :=
  p.mapping.direction = .write ∧ p.mapping.registerType = .holdingRegister ∧
    ∃ v ty, p.env.reading = .ok (some v) ∧ halvalueToRegisters v = .ok (registers, ty)

/-- The device is in step with the Write mappings of a round. -/
def InStep (ps : List Poll) (a : ModbusAdapter) : Prop :=
  ∀ p ∈ ps, ∀ registers, p.Due registers → (sentTo p.mapping.address a.calls).getLast? = some registers

/-! ## What a round writes -/

/-- The value that a completed read poll puts into the cache. -/
def Poll.stores (p : Poll) : Option HalValue :=
  match p.mapping.direction, (readValue p.mapping p.env.ffi).2, p.env.publish with
  | .read, .ok v, .ok () => some v
  | _, _, _ => none

/-- The value that a write poll has to offer, with its registers. -/
def Poll.offers (p : Poll) : Option (HalValue × List UInt16) :=
  match p.mapping.direction, p.env.reading with
  | .write, .ok (some v) =>
    match halvalueToRegisters v with
    | .ok (registers, _) => some (v, registers)
    | .error _ => none
  | _, _ => none

/-- A read poll of `pre` stored the signal. -/
def storedIn (pre : List Poll) (name : String) : Bool :=
  pre.any fun p => p.mapping.signalName == name && p.stores.isSome

/-- A write poll of `pre` offered the signal. -/
def offeredIn (pre : List Poll) (name : String) : Bool :=
  pre.any fun p => p.mapping.signalName == name && p.offers.isSome

/-- The entry that a write poll of the signal `name`, of value `v`, finds behind the polls `pre` of its round, if
    the round started with `cache`: the value itself once the round has polled the signal (unless the write poll
    that came first was skipped already), what the round started with otherwise. -/
def entryAt (cache : String → Option HalValue) (pre : List Poll) (name : String) (v : HalValue) :
    Option HalValue :=
  if storedIn pre name || (offeredIn pre name && !unchanged (cache name) v) then some v else cache name

/-- The registers that a poll writes behind the polls `pre` of its round. -/
def Poll.issues (cache : String → Option HalValue) (pre : List Poll) (p : Poll) : Option (List UInt16) :=
  match p.offers with
  | none => none
  | some (v, registers) =>
    if unchanged (entryAt cache pre p.mapping.signalName v) v then none else some registers

/-- The registers that the polls `ps` write to an address, in order, behind the polls `pre` of their round. -/
def roundWrites (cache : String → Option HalValue) (address : UInt16) : List Poll → List Poll → List (List UInt16)
  | _, [] => []
  | pre, p :: ps =>
    (if p.mapping.address = address then (p.issues cache pre).toList else []) ++
      roundWrites cache address (pre ++ [p]) ps

section Lemmas

omit [Target] in
theorem sentTo_append (address : UInt16) (cs ds : List ClientCall) :
    sentTo address (cs ++ ds) = sentTo address cs ++ sentTo address ds := List.filterMap_append

theorem storedIn_snoc (pre : List Poll) (p : Poll) (name : String) :
    storedIn (pre ++ [p]) name = (storedIn pre name || (p.mapping.signalName == name && p.stores.isSome)) := by
  simp [storedIn]

theorem offeredIn_snoc (pre : List Poll) (p : Poll) (name : String) :
    offeredIn (pre ++ [p]) name = (offeredIn pre name || (p.mapping.signalName == name && p.offers.isSome)) := by
  simp [offeredIn]

/-- A poll that neither stores nor offers the signal leaves its entry. -/
theorem entryAt_snoc_idle {name : String} (stores : p.mapping.signalName = name → p.stores = none)
    (offers : p.mapping.signalName = name → p.offers = none) :
    entryAt cache (pre ++ [p]) name v = entryAt cache pre name v := by
  rw [entryAt, storedIn_snoc, offeredIn_snoc]
  by_cases same : p.mapping.signalName = name
  · simp [stores same, offers same, entryAt]
  · simp [same, entryAt]

/-- Behind a poll that stores the signal, its entry is its value. -/
theorem entryAt_snoc_stores
    (stores : p.stores = some v) : entryAt cache (pre ++ [p]) p.mapping.signalName v = some v := by
  rw [entryAt, storedIn_snoc]
  simp [stores]

/-- Behind a poll that offers the signal, its entry is what the poll leaves: the entry it found if that is
    unchanged, the value otherwise. -/
theorem entryAt_snoc_offers
    {registers : List UInt16} (stores : p.stores = none) (offers : p.offers = some (v, registers)) :
    entryAt cache (pre ++ [p]) p.mapping.signalName v =
      if unchanged (entryAt cache pre p.mapping.signalName v) v then entryAt cache pre p.mapping.signalName v
      else some v := by
  rw [entryAt, storedIn_snoc, offeredIn_snoc, stores, offers]
  by_cases hs : storedIn pre p.mapping.signalName = true
  · simp [entryAt, hs]
  · by_cases hu : unchanged (cache p.mapping.signalName) v = true
    · simp [entryAt, hs, hu]
    · by_cases ho : offeredIn pre p.mapping.signalName = true
      · simp [entryAt, hs, hu, ho]
      · simp [entryAt, hs, hu, ho]

/-- What a poll does, given the entry that it finds: it sends what `issues` says, and leaves the cache as
    `entryAt` says. The client calls it makes are `calls`. -/
structure PollSpec (a : ModbusAdapter) (p : Poll) (calls : List ClientCall) : Prop where
  logged : (poll a p).calls = a.calls ++ calls
  /-- The poll of a signal whose value the transport does not give, or cannot be written, or is unchanged. -/
  idle : p.stores = none → (∀ v registers, p.offers = some (v, registers) →
    unchanged (a.signalCache p.mapping.signalName) v = true) →
      (poll a p).signalCache = a.signalCache ∧ ∀ address, sentTo address calls = []
  stores : ∀ v, p.stores = some v →
    (poll a p).signalCache = (a.insert p.mapping.signalName v).signalCache ∧ ∀ address, sentTo address calls = []
  issues : (∀ call ∈ calls, call.Ok = true) → ∀ v registers, p.offers = some (v, registers) →
    unchanged (a.signalCache p.mapping.signalName) v = false →
      (poll a p).signalCache = (a.insert p.mapping.signalName v).signalCache ∧
        ∀ address, sentTo address calls = if p.mapping.address = address then [registers] else []

theorem pollRead_spec (a : ModbusAdapter) (p : Poll) (read : p.mapping.direction = .read) :
    ∃ calls, PollSpec a p calls := by
  refine ⟨[.read (readValue p.mapping p.env.ffi).1], ?_⟩
  have offers : p.offers = none := by simp [Poll.offers, read]
  rcases hv : readValue p.mapping p.env.ffi with ⟨ok, e | v⟩
  · have stores : p.stores = none := by simp [Poll.stores, read, hv]
    constructor <;> simp [poll, read, pollRead, hv, stores, offers, ModbusAdapter.logged, sentTo]
  · cases hp : p.env.publish with
    | error e =>
      have stores : p.stores = none := by simp [Poll.stores, read, hv, hp]
      constructor <;> simp [poll, read, pollRead, hv, hp, stores, offers, ModbusAdapter.logged, sentTo]
    | ok u =>
      have stores : p.stores = some v := by simp [Poll.stores, read, hv, hp]
      constructor <;>
        simp [poll, read, pollRead, hv, hp, stores, offers, ModbusAdapter.logged, ModbusAdapter.insert, sentTo]

theorem pollWrite_spec (a : ModbusAdapter) (p : Poll) (write : p.mapping.direction = .write) :
    ∃ calls, PollSpec a p calls := by
  have stores : p.stores = none := by simp [Poll.stores, write]
  rcases hr : p.env.reading with e | _ | v
  · have offers : p.offers = none := by simp [Poll.offers, write, hr]
    refine ⟨[], ?_⟩
    constructor <;> simp [poll, write, pollWrite, hr, stores, offers, sentTo]
  · have offers : p.offers = none := by simp [Poll.offers, write, hr]
    refine ⟨[], ?_⟩
    constructor <;> simp [poll, write, pollWrite, hr, stores, offers, sentTo]
  · by_cases same : unchanged (a.signalCache p.mapping.signalName) v = true
    · refine ⟨[], ?_⟩
      have only : ∀ w registers, p.offers = some (w, registers) → w = v := by
        intro w registers ho
        simp only [Poll.offers, write, hr] at ho
        split at ho <;> simp_all
      constructor
      · simp [poll, write, pollWrite, hr, same]
      · simp [poll, write, pollWrite, hr, same, sentTo]
      · simp [stores]
      · intro _ w registers ho hne
        rw [only w registers ho, same] at hne
        cases hne
    · rcases hc : halvalueToRegisters v with e | ⟨registers, ty⟩
      · have offers : p.offers = none := by simp [Poll.offers, write, hr, hc]
        refine ⟨[], ?_⟩
        constructor <;> simp [poll, write, pollWrite, hr, same, hc, stores, offers, sentTo]
      · have offers : p.offers = some (v, registers) := by simp [Poll.offers, write, hr, hc]
        generalize ho : (if registers.length = 1 then p.env.ffi.writeSingleRegister
          else p.env.ffi.writeMultipleRegisters registers) = outcome
        refine ⟨[.write p.mapping.address registers outcome], ?_⟩
        have result : poll a p = if outcome = .done
            then (a.logged (.write p.mapping.address registers outcome)).insert p.mapping.signalName v
            else a.logged (.write p.mapping.address registers outcome) := by
          simp only [poll, write, pollWrite, hr, same, hc, ho]
          cases outcome <;> rfl
        constructor
        · rw [result]
          by_cases done : outcome = .done <;> simp [done, ModbusAdapter.logged, ModbusAdapter.insert]
        · intro _ hidle
          rw [hidle v registers offers] at same
          exact absurd rfl same
        · simp [stores]
        · intro hok w regs hw _
          rw [offers] at hw
          simp only [Option.some.injEq, Prod.mk.injEq] at hw
          obtain ⟨rfl, rfl⟩ := hw
          have done : outcome = .done := by simpa [ClientCall.Ok] using hok _ (List.mem_singleton.2 rfl)
          subst done
          rw [result]
          exact ⟨rfl, fun address => by by_cases h : p.mapping.address = address <;> simp [sentTo, h]⟩

theorem poll_spec (a : ModbusAdapter) (p : Poll) : ∃ calls, PollSpec a p calls := by
  cases h : p.mapping.direction with
  | read => exact pollRead_spec a p h
  | write => exact pollWrite_spec a p h

theorem pollRound_calls (a : ModbusAdapter) (ps : List Poll) :
    ∃ calls, (pollRound a ps).calls = a.calls ++ calls := by
  induction ps generalizing a with
  | nil => exact ⟨[], by simp [pollRound]⟩
  | cons p ps ih =>
    obtain ⟨first, spec⟩ := poll_spec a p
    obtain ⟨rest, hr⟩ := ih (poll a p)
    refine ⟨first ++ rest, ?_⟩
    show (pollRound (poll a p) ps).calls = _
    rw [hr, spec.logged, List.append_assoc]

/-- A clean round is a clean poll and a clean rest. -/
theorem Clean.cons (h : Clean a (p :: ps)) {calls : List ClientCall} (spec : PollSpec a p calls) :
    (∀ call ∈ calls, call.Ok = true) ∧ Clean (poll a p) ps := by
  obtain ⟨rest, hr⟩ := pollRound_calls (poll a p) ps
  have all : (pollRound a (p :: ps)).calls = a.calls ++ (calls ++ rest) := by
    show (pollRound (poll a p) ps).calls = _
    rw [hr, spec.logged, List.append_assoc]
  rw [Clean, all, List.drop_left] at h
  refine ⟨fun call hc => h call (List.mem_append_left _ hc), ?_⟩
  rw [Clean, hr, List.drop_left]
  exact fun call hc => h call (List.mem_append_right _ hc)

/-- In the middle of a round that started with `cache`: the entry of each signal is the one foreseen. -/
def Foresees (table cache : String → Option HalValue) (pre : List Poll) (a : ModbusAdapter) : Prop :=
  ∀ name v, table name = some v → a.signalCache name = entryAt cache pre name v

theorem Steady.stores (h : Steady table ps)
    (hp : p ∈ ps) (hs : p.stores = some v) : table p.mapping.signalName = some v := by
  have steady := h p hp
  simp only [Poll.stores] at hs
  split at hs
  · rename_i w hd hv hq
    rw [hd] at steady
    exact (Option.some.inj hs) ▸ steady w hv hq
  · cases hs

theorem Steady.offers (h : Steady table ps)
    (hp : p ∈ ps) {registers : List UInt16} (ho : p.offers = some (v, registers)) :
    table p.mapping.signalName = some v := by
  have steady := h p hp
  simp only [Poll.offers] at ho
  split at ho
  · rename_i w hd hr
    rw [hd] at steady
    split at ho
    · simp only [Option.some.injEq, Prod.mk.injEq] at ho
      exact ho.1 ▸ (steady _ hr).symm
    · cases ho
  · cases ho

/-- **One poll of a clean and steady round** sends what is foreseen, and leaves the entries that are. -/
theorem poll_foreseen {table cache : String → Option HalValue}
    (hp : p ∈ ps) (steady : Steady table ps) (sees : Foresees table cache pre a)
    {calls : List ClientCall} (spec : PollSpec a p calls) (ok : ∀ call ∈ calls, call.Ok = true) :
    Foresees table cache (pre ++ [p]) (poll a p) ∧
      ∀ address, sentTo address calls =
        if p.mapping.address = address then (p.issues cache pre).toList else [] := by
  cases hs : p.stores with
  | some v =>
    have value := steady.stores hp hs
    have offers : p.offers = none := by
      simp only [Poll.stores] at hs
      split at hs
      · rename_i hd _ _
        simp [Poll.offers, hd]
      · cases hs
    obtain ⟨cached, silent⟩ := spec.stores v hs
    refine ⟨?_, fun address => by simp [silent, Poll.issues, offers]⟩
    -- the entry of the signal that is polled, and those of the others
    intro name w hw
    rw [cached]
    by_cases same : p.mapping.signalName = name
    · subst same
      rw [value] at hw
      cases hw
      rw [entryAt_snoc_stores hs]
      simp [ModbusAdapter.insert]
    · rw [entryAt_snoc_idle (fun h => absurd h same) (fun h => absurd h same), ← sees name w hw]
      simp [ModbusAdapter.insert, Ne.symm same]
  | none =>
    cases ho : p.offers with
    | none =>
      obtain ⟨cached, silent⟩ := spec.idle hs (by simp [ho])
      refine ⟨?_, fun address => by simp [silent, Poll.issues, ho]⟩
      intro name w hw
      rw [cached, entryAt_snoc_idle (fun _ => hs) (fun _ => ho)]
      exact sees name w hw
    | some offer =>
      obtain ⟨v, registers⟩ := offer
      have value := steady.offers hp ho
      have found := sees _ v value
      -- a value is sent if it is not the one in the cache
      by_cases same : unchanged (a.signalCache p.mapping.signalName) v = true
      · obtain ⟨cached, silent⟩ := spec.idle hs (by
          intro w regs hw
          rw [ho] at hw
          simp only [Option.some.injEq, Prod.mk.injEq] at hw
          rw [← hw.1, same])
        refine ⟨?_, fun address => by simp [silent, Poll.issues, ho, ← found, same]⟩
        intro name w hw
        rw [cached, sees name w hw]
        by_cases name_eq : p.mapping.signalName = name
        · subst name_eq
          rw [value] at hw
          cases hw
          rw [entryAt_snoc_offers hs ho, ← found, if_pos same]
        · rw [entryAt_snoc_idle (fun h => absurd h name_eq) (fun h => absurd h name_eq)]
      · have changed : unchanged (a.signalCache p.mapping.signalName) v = false := by simpa using same
        obtain ⟨cached, sent⟩ := spec.issues ok v registers ho changed
        refine ⟨?_, fun address => by simp [sent, Poll.issues, ho, ← found, changed]⟩
        intro name w hw
        rw [cached]
        by_cases name_eq : p.mapping.signalName = name
        · subst name_eq
          rw [value] at hw
          cases hw
          rw [entryAt_snoc_offers hs ho, ← found, if_neg same]
          simp [ModbusAdapter.insert]
        · rw [entryAt_snoc_idle (fun h => absurd h name_eq) (fun h => absurd h name_eq), ← sees name w hw]
          simp [ModbusAdapter.insert, Ne.symm name_eq]

/-- What the polls of a clean and steady round send, from the middle of it on. -/
theorem pollRound_sent {table cache : String → Option HalValue} (address : UInt16) {ps all : List Poll}
    (sub : ∀ p ∈ ps, p ∈ all) (steady : Steady table all)
    (sees : Foresees table cache pre a) (clean : Clean a ps) :
    sentTo address (pollRound a ps).calls = sentTo address a.calls ++ roundWrites cache address pre ps := by
  induction ps generalizing pre a with
  | nil => simp [pollRound, roundWrites]
  | cons p ps ih =>
    obtain ⟨calls, spec⟩ := poll_spec a p
    obtain ⟨ok, rest⟩ := clean.cons spec
    obtain ⟨sees', sent⟩ := poll_foreseen (sub p List.mem_cons_self) steady sees spec ok
    have next := ih (fun q hq => sub q (List.mem_cons_of_mem _ hq)) sees' rest
    calc sentTo address (pollRound a (p :: ps)).calls
      _ = sentTo address (pollRound (poll a p) ps).calls := rfl
      _ = sentTo address (a.calls ++ calls) ++ roundWrites cache address (pre ++ [p]) ps := by
        rw [next, spec.logged]
      _ = sentTo address a.calls ++ roundWrites cache address pre (p :: ps) := by
        rw [sentTo_append, sent address, List.append_assoc, roundWrites]

/-- **What a clean and steady round writes.** -/
theorem pollRound_writes (address : UInt16) (steady : Steady table ps) (clean : Clean a ps) :
    sentTo address (pollRound a ps).calls =
      sentTo address a.calls ++ roundWrites a.signalCache address [] ps :=
  pollRound_sent address (fun _ hp => hp) steady (fun name v _ => by simp [entryAt, storedIn, offeredIn]) clean

end Lemmas

/-! ## When the device is in step -/

/-- Before a round: for each value that is due, the last write of the round to its address will carry its
    registers; where the round will write nothing there, the last write before the round carried them. -/
def Foreseen (ps : List Poll) (a : ModbusAdapter) : Prop :=
  ∀ p ∈ ps, ∀ registers, p.Due registers →
    match (roundWrites a.signalCache p.mapping.address [] ps).getLast? with
    | some last => last = registers
    | none => (sentTo p.mapping.address a.calls).getLast? = some registers

/-- **The device is in step after a round exactly if that was to be foreseen**, in every run of the poll loop. -/
theorem inStep_iff (mappings : List RegisterMapping) (rounds : List (Nat → PollEnv)) (env : Nat → PollEnv)
    (table : String → Option HalValue) (steady : Steady table (polls mappings env))
    (clean : Clean (run mappings rounds) (polls mappings env)) :
    InStep (polls mappings env) (run mappings (rounds ++ [env])) ↔
      Foreseen (polls mappings env) (run mappings rounds) := by
  have last : run mappings (rounds ++ [env]) = pollRound (run mappings rounds) (polls mappings env) := by
    simp [run]
  rw [last]
  refine forall_congr' fun p => forall_congr' fun _ => forall_congr' fun registers => forall_congr' fun _ => ?_
  rw [pollRound_writes p.mapping.address steady clean, List.getLast?_append]
  cases (roundWrites (run mappings rounds).signalCache p.mapping.address [] (polls mappings env)).getLast? with
  | none => simp
  | some written => simp

end Audesys.Modbus

/-! ## Two mappings of one signal -/

namespace Audesys.Modbus

open Audesys.Hal

local instance releaseAdapter : Target := host false

/-- A Write mapping of `speed` to a holding register. -/
def speedAt (address : UInt16) : RegisterMapping := ⟨"speed", .holdingRegister, address, 1, .write⟩

/-- `speed` is 5, and the device answers. -/
def speedFive : Nat → PollEnv := fun _ => ⟨⟨true, .ok [], .ok [], .ok ()⟩, .ok (), .ok (some (.u16 5))⟩

def speedTable : String → Option HalValue := fun name => if name = "speed" then some (.u16 5) else none

/-- The first mapping puts the value into the cache, so nothing is ever written for the second. -/
theorem sharedSignal_outOfStep :
    Steady speedTable (polls [speedAt 10, speedAt 20] speedFive) ∧
      Clean .new (polls [speedAt 10, speedAt 20] speedFive) ∧
      sentTo 20 (run [speedAt 10, speedAt 20] [speedFive]).calls = [] ∧
      ¬ InStep (polls [speedAt 10, speedAt 20] speedFive) (run [speedAt 10, speedAt 20] [speedFive]) := by
  have calls : (run [speedAt 10, speedAt 20] [speedFive]).calls = [.write 10 [5] .done] := rfl
  refine ⟨?_, ?_, by rw [calls]; rfl, ?_⟩
  · intro p hp
    simp [polls] at hp
    rcases hp with rfl | rfl <;> simp [speedAt, speedFive, speedTable]
  · intro call hc
    have all : (pollRound .new (polls [speedAt 10, speedAt 20] speedFive)).calls = [.write 10 [5] .done] := rfl
    rw [all] at hc
    have one := List.mem_singleton.1 hc
    rw [one]
    rfl
  · intro h
    have due := h ⟨speedAt 20, speedFive 1⟩ (by simp [polls]) [5] ⟨rfl, rfl, .u16 5, .u16, rfl, rfl⟩
    rw [calls] at due
    cases due

/-- Two mappings with a signal each. -/
def speedAndLevel : List RegisterMapping := [speedAt 10, ⟨"level", .holdingRegister, 20, 1, .write⟩]

/-- A round before, in which both signals are 4. -/
def bothFour : Nat → PollEnv := fun _ => ⟨⟨true, .ok [], .ok [], .ok ()⟩, .ok (), .ok (some (.u16 4))⟩

/-- They are in step after the second round, in which both signals are 5. -/
theorem speedAndLevel_inStep :
    InStep (polls speedAndLevel speedFive) (run speedAndLevel ([bothFour] ++ [speedFive])) := by
  refine (inStep_iff speedAndLevel [bothFour] speedFive (fun _ => some (.u16 5)) ?_ ?_).2 ?_
  · intro p hp
    simp [polls, speedAndLevel] at hp
    rcases hp with rfl | rfl <;> simp [speedAt, speedFive]
  · intro call hc
    have all : (pollRound (run speedAndLevel [bothFour]) (polls speedAndLevel speedFive)).calls.drop
        (run speedAndLevel [bothFour]).calls.length = [.write 10 [5] .done, .write 20 [5] .done] := rfl
    rw [all] at hc
    rcases List.mem_cons.1 hc with rfl | hc
    · rfl
    · rw [List.mem_singleton.1 hc]
      rfl
  · intro p hp registers due
    simp [polls, speedAndLevel] at hp
    obtain ⟨-, -, v, ty, hv, hr⟩ := due
    rcases hp with rfl | rfl <;> cases hv <;> cases hr <;> rfl

end Audesys.Modbus
