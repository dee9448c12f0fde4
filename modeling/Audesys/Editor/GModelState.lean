import Audesys.Lib.History

/-!
# `Editor.GModelState` — undo and redo in the ladder and the function block editor

`ld-gmodel-state.ts` and `fbd-gmodel-state.ts`: an array of serialized graphs and a pointer to the current one. The two
classes differ in `pushSnapshot` and in their guards. Serialization is taken to be faithful (`JsonFormat`). A mutation
can throw, and then nothing has changed.

* `history_refined` — both classes are a bounded history of fifty graphs.
-/

namespace Audesys.Editor

open Audesys.Lib

/-- `toJSON` and `fromJSON` of a kind of graphs. -/
class JsonFormat (G : Type) where
  toJSON : G → String
  fromJSON : String → G
  fromJSON_toJSON : ∀ g, fromJSON (toJSON g) = g

export JsonFormat (toJSON fromJSON fromJSON_toJSON)

/-- `MAX_UNDO`. -/
def maxUndo : Nat := 50

/-- The fields of `LdGModelState` and of `FbdGModelState`. -/
structure GModelState where
  snapshots : List String
  pointer : Int
  dirty : Bool
  deriving DecidableEq

/-- What can be called on a state. -/
inductive StateCall (G : Type) where
  | applyOperation (mutate : G → Option G)
  | undo
  | redo
  | markClean

/-- What comes back. -/
inductive Reply (G : Type) where
  | graph (g : G)
  | null
  | threw
  | done
  deriving DecidableEq

variable {G : Type} [JsonFormat G]

namespace GModelState

/-- The fields before the constructor has run. -/
def blank : GModelState := ⟨[], -1, false⟩

/-- Drop what is behind the pointer (`slice(0, pointer + 1)`). -/
def discardRedo (s : GModelState) : GModelState := { s with snapshots := s.snapshots.take (s.pointer + 1).toNat }

def snapshot (s : GModelState) : G := fromJSON (s.snapshots.getD s.pointer.toNat "")

def markClean (s : GModelState) : GModelState := { s with dirty := false }

/-- A step of the pointer. -/
def movePointer (s : GModelState) (step : Int) : GModelState := { s with pointer := s.pointer + step, dirty := true }

end GModelState

/-! ## The ladder editor -/

namespace LdGModelState

open GModelState

def pushSnapshot (s : GModelState) (g : G) : GModelState :=
  let s := { s with snapshots := s.snapshots ++ [toJSON g] }
  if s.snapshots.length > maxUndo then { s with snapshots := s.snapshots.tail }
  else { s with pointer := s.pointer + 1 }

/-- The constructor. -/
def new (initial : G) : GModelState := pushSnapshot blank initial

/-- The current graph; `empty` is what `createLdGraph` gives. -/
def graph (empty : G) (s : GModelState) : G := if s.pointer < 0 then empty else s.snapshot

def applyOperation (empty : G) (s : GModelState) (mutate : G → Option G) : GModelState × Reply G :=
  match mutate (graph empty s) with
  | none => (s, .threw)
  | some next => ({ pushSnapshot s.discardRedo next with dirty := true }, .graph next)

def undo (empty : G) (s : GModelState) : GModelState × Reply G :=
  if s.pointer ≤ 0 then (s, .null)
  else
    let s := s.movePointer (-1)
    (s, .graph (graph empty s))

def redo (empty : G) (s : GModelState) : GModelState × Reply G :=
  if s.pointer ≥ s.snapshots.length - 1 then (s, .null)
  else
    let s := s.movePointer 1
    (s, .graph (graph empty s))

def call (empty : G) (s : GModelState) : StateCall G → GModelState × Reply G
  | .applyOperation mutate => applyOperation empty s mutate
  | .undo => undo empty s
  | .redo => redo empty s
  | .markClean => (s.markClean, .done)

end LdGModelState

/-! ## The function block editor -/

namespace FbdGModelState

open GModelState

def pushSnapshot (s : GModelState) (g : G) : GModelState :=
  let s := s.discardRedo
  let s := if s.snapshots.length ≥ maxUndo then { s with snapshots := s.snapshots.tail } else s
  let s := { s with snapshots := s.snapshots ++ [toJSON g] }
  { s with pointer := s.snapshots.length - 1 }

/-- The constructor. -/
def new (initial : G) : GModelState := pushSnapshot blank initial

/-- The current graph; `empty` is what `createFbdGraph` gives. -/
def graph (empty : G) (s : GModelState) : G :=
  if s.pointer < 0 ∨ s.pointer ≥ s.snapshots.length then empty else s.snapshot

def canUndo (s : GModelState) : Bool := s.pointer > 0

def canRedo (s : GModelState) : Bool := s.pointer < s.snapshots.length - 1

def applyOperation (empty : G) (s : GModelState) (mutate : G → Option G) : GModelState × Reply G :=
  match mutate (graph empty s) with
  | none => (s, .threw)
  | some next => ({ pushSnapshot s.discardRedo next with dirty := true }, .graph next)

def undo (empty : G) (s : GModelState) : GModelState × Reply G :=
  if !canUndo s then (s, .null)
  else
    let s := s.movePointer (-1)
    (s, .graph (graph empty s))

def redo (empty : G) (s : GModelState) : GModelState × Reply G :=
  if !canRedo s then (s, .null)
  else
    let s := s.movePointer 1
    (s, .graph (graph empty s))

def call (empty : G) (s : GModelState) : StateCall G → GModelState × Reply G
  | .applyOperation mutate => applyOperation empty s mutate
  | .undo => undo empty s
  | .redo => redo empty s
  | .markClean => (s.markClean, .done)

end FbdGModelState

/-! ## What the classes are for -/

/-- A document: its history, and the graph that was last marked clean, at first the initial one. -/
structure Document (G : Type) where
  history : History G
  clean : G

namespace Document

def new (initial : G) : Document G := ⟨.start initial, initial⟩

def call (d : Document G) : StateCall G → Document G × Reply G
  | .applyOperation mutate =>
    match mutate d.history.current with
    | none => (d, .threw)
    | some g => ({ d with history := d.history.apply maxUndo g }, .graph g)
  | .undo =>
    match d.history.undo with
    | none => (d, .null)
    | some h => ({ d with history := h }, .graph h.current)
  | .redo =>
    match d.history.redo with
    | none => (d, .null)
    | some h => ({ d with history := h }, .graph h.current)
  | .markClean => ({ d with clean := d.history.current }, .done)

end Document

/-- The calls one after the other, with their replies. -/
def runCalls {S : Type} (call : S → StateCall G → S × Reply G) (s : S) : List (StateCall G) → S × List (Reply G)
  | [] => (s, [])
  | c :: calls =>
    let (s, reply) := call s c
    let (s, replies) := runCalls call s calls
    (s, reply :: replies)

/-- The state shows the document. -/
structure Shows (s : GModelState) (d : Document G) : Prop where
  snapshots : s.snapshots = d.history.timeline.map toJSON
  pointer : s.pointer = d.history.past.length
  bound : d.history.timeline.length ≤ maxUndo
  dirty : s.dirty = false → d.history.current = d.clean

namespace Shows

variable {s : GModelState} {d : Document G}

theorem snapshot_eq (h : Shows s d) : (s.snapshot : G) = d.history.current := by
  unfold GModelState.snapshot
  rw [h.snapshots, h.pointer, Int.toNat_natCast, List.getD_eq_getElem?_getD, List.getElem?_map,
    d.history.getElem?_timeline]
  exact fromJSON_toJSON _

theorem ld_graph (h : Shows s d) (empty : G) : LdGModelState.graph empty s = d.history.current := by
  unfold LdGModelState.graph
  have hpointer := h.pointer
  rw [if_neg (by omega), h.snapshot_eq]

theorem fbd_graph (h : Shows s d) (empty : G) : FbdGModelState.graph empty s = d.history.current := by
  unfold FbdGModelState.graph
  have hpointer := h.pointer
  have hlength := d.history.length_timeline
  rw [if_neg, h.snapshot_eq]
  rw [h.snapshots, List.length_map]
  omega

/-- What is left in front of the pointer. -/
theorem discardRedo_snapshots (h : Shows s d) :
    s.discardRedo.snapshots = (d.history.past.reverse ++ [d.history.current]).map toJSON := by
  unfold GModelState.discardRedo
  have hpointer : (s.pointer + 1).toNat = d.history.past.length + 1 := by
    rw [h.pointer]
    omega
  dsimp only
  rw [hpointer, h.snapshots, ← List.map_take, d.history.take_timeline]

/-- Both ways to push a snapshot make a state of this kind. -/
theorem of_push (h : Shows s d) {g : G} {s' : GModelState}
    (hsnapshots : s'.snapshots = s.discardRedo.snapshots.drop (d.history.past.length + 1 - (maxUndo - 1)) ++ [toJSON g])
    (hpointer : s'.pointer = s'.snapshots.length - 1) (hdirty : s'.dirty = true) :
    Shows s' { d with history := d.history.apply maxUndo g } := by
  have htimeline : s'.snapshots = (d.history.apply maxUndo g).timeline.map toJSON := by
    rw [hsnapshots, h.discardRedo_snapshots, d.history.timeline_apply, d.history.take_timeline, ← List.map_drop,
      List.map_append]
    rfl
  refine ⟨htimeline, ?_, History.length_apply (by decide) _ _, ?_⟩
  · have hlength := (d.history.apply maxUndo g).length_timeline
    have hfuture : (d.history.apply maxUndo g).future.length = 0 := rfl
    rw [hpointer, htimeline, List.length_map, hlength, hfuture]
    show _ = ((d.history.apply maxUndo g).past.length : Int)
    omega
  · intro hclean
    rw [hdirty] at hclean
    cases hclean

theorem length_discardRedo (h : Shows s d) : s.discardRedo.snapshots.length = d.history.past.length + 1 := by
  rw [h.discardRedo_snapshots, List.length_map, List.length_append, List.length_reverse, List.length_singleton]

theorem ld_push (h : Shows s d) (g : G) :
    Shows { LdGModelState.pushSnapshot s.discardRedo g with dirty := true }
      { d with history := d.history.apply maxUndo g } := by
  have hlength := h.length_discardRedo
  have hbound := h.bound
  rw [History.length_timeline] at hbound
  have hpointer : s.discardRedo.pointer = d.history.past.length := h.pointer
  have hmax : maxUndo = 50 := rfl
  unfold LdGModelState.pushSnapshot
  dsimp only
  rw [List.length_append, List.length_singleton, hlength]
  by_cases hfull : d.history.past.length + 1 + 1 > maxUndo
  · -- one state too many: the oldest one goes, and the pointer stays
    rw [if_pos hfull]
    have hdrop : d.history.past.length + 1 - (maxUndo - 1) = 1 := by omega
    apply h.of_push
    · dsimp only
      rw [hdrop, List.drop_one, List.tail_append_of_ne_nil]
      exact List.ne_nil_of_length_pos (by omega)
    · dsimp only
      rw [List.length_tail, List.length_append, hlength, hpointer, List.length_singleton]
      omega
    · rfl
  · rw [if_neg hfull]
    have hdrop : d.history.past.length + 1 - (maxUndo - 1) = 0 := by omega
    apply h.of_push
    · dsimp only
      rw [hdrop, List.drop_zero]
    · dsimp only
      rw [List.length_append, hlength, hpointer, List.length_singleton]
      omega
    · rfl

theorem fbd_push (h : Shows s d) (g : G) :
    Shows { FbdGModelState.pushSnapshot s.discardRedo g with dirty := true }
      { d with history := d.history.apply maxUndo g } := by
  have hlength := h.length_discardRedo
  have hbound := h.bound
  rw [History.length_timeline] at hbound
  have hagain : s.discardRedo.discardRedo = s.discardRedo := by
    unfold GModelState.discardRedo
    dsimp only
    rw [List.take_take, Nat.min_self]
  have hmax : maxUndo = 50 := rfl
  unfold FbdGModelState.pushSnapshot
  dsimp only
  rw [hagain, hlength]
  by_cases hfull : d.history.past.length + 1 ≥ maxUndo
  · rw [if_pos hfull]
    have hdrop : d.history.past.length + 1 - (maxUndo - 1) = 1 := by omega
    apply h.of_push
    · dsimp only
      rw [hdrop, List.drop_one]
    · rfl
    · rfl
  · rw [if_neg hfull]
    have hdrop : d.history.past.length + 1 - (maxUndo - 1) = 0 := by omega
    apply h.of_push
    · dsimp only
      rw [hdrop, List.drop_zero]
    · rfl
    · rfl

/-- A step of the pointer within the timeline. -/
theorem moved (h : Shows s d) {h' : History G} {step : Int} (htimeline : h'.timeline = d.history.timeline)
    (hpast : d.history.past.length + step = h'.past.length) :
    Shows (s.movePointer step) { d with history := h' } := by
  refine ⟨?_, ?_, ?_, ?_⟩
  · exact h.snapshots.trans (by rw [htimeline])
  · show s.pointer + step = _
    rw [h.pointer, hpast]
  · show h'.timeline.length ≤ maxUndo
    rw [htimeline]
    exact h.bound
  · intro hclean
    cases hclean

theorem undone (h : Shows s d) {h' : History G} (hundo : d.history.undo = some h') :
    Shows (s.movePointer (-1)) { d with history := h' } := by
  obtain ⟨htimeline, hpast⟩ := History.timeline_undo hundo
  exact h.moved htimeline (by omega)

theorem redone (h : Shows s d) {h' : History G} (hredo : d.history.redo = some h') :
    Shows (s.movePointer 1) { d with history := h' } := by
  obtain ⟨htimeline, hpast⟩ := History.timeline_redo hredo
  exact h.moved htimeline (by omega)

theorem markClean (h : Shows s d) : Shows s.markClean { d with clean := d.history.current } :=
  ⟨h.snapshots, h.pointer, h.bound, fun _ => rfl⟩

/-- The pointer is at the start exactly where nothing can be undone. -/
theorem pointer_le_zero_iff (h : Shows s d) : s.pointer ≤ 0 ↔ d.history.undo = none := by
  rw [History.undo_eq_none_iff, h.pointer, ← List.length_eq_zero_iff]
  omega

/-- The pointer is at the end exactly where nothing can be redone. -/
theorem pointer_ge_iff (h : Shows s d) : s.pointer ≥ s.snapshots.length - 1 ↔ d.history.redo = none := by
  rw [History.redo_eq_none_iff, h.pointer, h.snapshots, List.length_map, History.length_timeline,
    ← List.length_eq_zero_iff]
  omega

/-- **Each call** of the ladder editor. -/
theorem ld_call (h : Shows s d) (empty : G) (c : StateCall G) :
    Shows (LdGModelState.call empty s c).1 (d.call c).1 ∧ (LdGModelState.call empty s c).2 = (d.call c).2 := by
  cases c with
  | applyOperation mutate =>
    unfold LdGModelState.call LdGModelState.applyOperation Document.call
    dsimp only
    rw [h.ld_graph]
    cases mutate d.history.current with
    | none => exact ⟨h, rfl⟩
    | some g => exact ⟨h.ld_push g, rfl⟩
  | undo =>
    unfold LdGModelState.call LdGModelState.undo Document.call
    dsimp only
    cases hundo : d.history.undo with
    | none =>
      rw [if_pos (h.pointer_le_zero_iff.2 hundo)]
      exact ⟨h, rfl⟩
    | some h' =>
      rw [if_neg]
      · exact ⟨h.undone hundo, congrArg Reply.graph ((h.undone hundo).ld_graph empty)⟩
      · rw [h.pointer_le_zero_iff, hundo]
        exact Option.some_ne_none h'
  | redo =>
    unfold LdGModelState.call LdGModelState.redo Document.call
    dsimp only
    cases hredo : d.history.redo with
    | none =>
      rw [if_pos (h.pointer_ge_iff.2 hredo)]
      exact ⟨h, rfl⟩
    | some h' =>
      rw [if_neg]
      · exact ⟨h.redone hredo, congrArg Reply.graph ((h.redone hredo).ld_graph empty)⟩
      · rw [h.pointer_ge_iff, hredo]
        exact Option.some_ne_none h'
  | markClean => exact ⟨h.markClean, rfl⟩

/-- **Each call** of the function block editor. -/
theorem fbd_call (h : Shows s d) (empty : G) (c : StateCall G) :
    Shows (FbdGModelState.call empty s c).1 (d.call c).1 ∧ (FbdGModelState.call empty s c).2 = (d.call c).2 := by
  cases c with
  | applyOperation mutate =>
    unfold FbdGModelState.call FbdGModelState.applyOperation Document.call
    dsimp only
    rw [h.fbd_graph]
    cases mutate d.history.current with
    | none => exact ⟨h, rfl⟩
    | some g => exact ⟨h.fbd_push g, rfl⟩
  | undo =>
    -- both sides can undo, or neither
    have hcan : FbdGModelState.canUndo s = false ↔ d.history.undo = none := by
      rw [← h.pointer_le_zero_iff]
      unfold FbdGModelState.canUndo
      rw [decide_eq_false_iff_not]
      omega
    unfold FbdGModelState.call FbdGModelState.undo Document.call
    dsimp only
    cases hundo : d.history.undo with
    | none =>
      rw [hcan.2 hundo]
      exact ⟨h, rfl⟩
    | some h' =>
      have htrue : FbdGModelState.canUndo s = true := by
        rw [← Bool.not_eq_false, hcan, hundo]
        exact Option.some_ne_none h'
      rw [htrue]
      exact ⟨h.undone hundo, congrArg Reply.graph ((h.undone hundo).fbd_graph empty)⟩
  | redo =>
    -- and so it is with redo
    have hcan : FbdGModelState.canRedo s = false ↔ d.history.redo = none := by
      rw [← h.pointer_ge_iff]
      unfold FbdGModelState.canRedo
      rw [decide_eq_false_iff_not]
      omega
    unfold FbdGModelState.call FbdGModelState.redo Document.call
    dsimp only
    cases hredo : d.history.redo with
    | none =>
      rw [hcan.2 hredo]
      exact ⟨h, rfl⟩
    | some h' =>
      have htrue : FbdGModelState.canRedo s = true := by
        rw [← Bool.not_eq_false, hcan, hredo]
        exact Option.some_ne_none h'
      rw [htrue]
      exact ⟨h.redone hredo, congrArg Reply.graph ((h.redone hredo).fbd_graph empty)⟩
  | markClean => exact ⟨h.markClean, rfl⟩

theorem ld_new (initial : G) : Shows (LdGModelState.new initial) (.new initial) := by
  refine ⟨rfl, rfl, ?_, fun _ => rfl⟩
  show 1 ≤ maxUndo
  decide

theorem fbd_new (initial : G) : Shows (FbdGModelState.new initial) (.new initial) := by
  refine ⟨rfl, rfl, ?_, fun _ => rfl⟩
  show 1 ≤ maxUndo
  decide

end Shows

/-! ## Runs -/

/-- One of the two classes. -/
structure Implementation (G : Type) where
  new : G → GModelState
  graph : GModelState → G
  call : GModelState → StateCall G → GModelState × Reply G

def Implementation.ld (empty : G) : Implementation G :=
  ⟨LdGModelState.new, LdGModelState.graph empty, LdGModelState.call empty⟩

def Implementation.fbd (empty : G) : Implementation G :=
  ⟨FbdGModelState.new, FbdGModelState.graph empty, FbdGModelState.call empty⟩

/-- A class whose states show documents. -/
structure Implementation.Correct (impl : Implementation G) : Prop where
  new : ∀ initial, Shows (impl.new initial) (.new initial)
  graph : ∀ {s : GModelState} {d : Document G}, Shows s d → impl.graph s = d.history.current
  call : ∀ {s : GModelState} {d : Document G}, Shows s d → ∀ c,
    Shows (impl.call s c).1 (d.call c).1 ∧ (impl.call s c).2 = (d.call c).2

theorem ld_correct (empty : G) : (Implementation.ld empty).Correct :=
  ⟨Shows.ld_new, fun h => h.ld_graph empty, fun h => h.ld_call empty⟩

theorem fbd_correct (empty : G) : (Implementation.fbd empty).Correct :=
  ⟨Shows.fbd_new, fun h => h.fbd_graph empty, fun h => h.fbd_call empty⟩

def Document.runs (initial : G) (calls : List (StateCall G)) : Document G × List (Reply G) :=
  runCalls Document.call (.new initial) calls

namespace Implementation

variable {impl : Implementation G}

theorem Correct.run (h : impl.Correct) {s : GModelState} {d : Document G} (hs : Shows s d)
    (calls : List (StateCall G)) : Shows (runCalls impl.call s calls).1 (runCalls Document.call d calls).1 ∧
      (runCalls impl.call s calls).2 = (runCalls Document.call d calls).2 := by
  induction calls generalizing s d with
  | nil => exact ⟨hs, rfl⟩
  | cons c calls ih =>
    obtain ⟨hstep, hreply⟩ := h.call hs c
    obtain ⟨hrest, hreplies⟩ := ih hstep
    exact ⟨hrest, congrArg₂ List.cons hreply hreplies⟩

/-- A run from the constructor on. -/
def runs (impl : Implementation G) (initial : G) (calls : List (StateCall G)) : GModelState × List (Reply G) :=
  runCalls impl.call (impl.new initial) calls

/-- What a run of a class has to do with the document: the replies are those of the document, the graph is its current
one, at most fifty graphs are kept, a state that is not dirty is at the graph that was last marked clean, and where
there is something to undo, undoing and redoing it leads back to the same snapshots and the same graph. -/
structure Refines (impl : Implementation G) (initial : G) (calls : List (StateCall G)) : Prop where
  replies : (impl.runs initial calls).2 = (Document.runs initial calls).2
  graph : impl.graph (impl.runs initial calls).1 = (Document.runs initial calls).1.history.current
  snapshots : (impl.runs initial calls).1.snapshots = (Document.runs initial calls).1.history.timeline.map toJSON
  kept : (impl.runs initial calls).1.snapshots.length ≤ maxUndo
  clean : (impl.runs initial calls).1.dirty = false →
    impl.graph (impl.runs initial calls).1 = (Document.runs initial calls).1.clean
  undo_redo : ∀ g, (impl.call (impl.runs initial calls).1 .undo).2 = .graph g →
    ∃ s, impl.call (impl.call (impl.runs initial calls).1 .undo).1 .redo =
        (s, .graph (impl.graph (impl.runs initial calls).1)) ∧
      s.snapshots = (impl.runs initial calls).1.snapshots ∧
      s.pointer = (impl.runs initial calls).1.pointer

theorem Correct.refines (h : impl.Correct) (initial : G) (calls : List (StateCall G)) : impl.Refines initial calls := by
  have hrun : Shows (impl.runs initial calls).1 (Document.runs initial calls).1 ∧
      (impl.runs initial calls).2 = (Document.runs initial calls).2 := h.run (h.new initial) calls
  obtain ⟨hshows, hreplies⟩ := hrun
  refine ⟨hreplies, h.graph hshows, hshows.snapshots, ?_, ?_, ?_⟩
  · rw [hshows.snapshots, List.length_map]
    exact hshows.bound
  · intro hclean
    rw [h.graph hshows]
    exact hshows.dirty hclean
  · intro g hg
    obtain ⟨hundone, hundo⟩ := h.call hshows .undo
    obtain ⟨hredone, hredo⟩ := h.call hundone .redo
    generalize (Document.runs initial calls).1 = d at *
    rw [hundo] at hg
    unfold Document.call at hg hundone hredone hredo
    cases hstep : d.history.undo with
    | none =>
      rw [hstep] at hg
      cases hg
    | some h' =>
      rw [hstep] at hundone hredone hredo
      dsimp only at hundone hredone hredo
      rw [History.redo_of_undo hstep] at hredone hredo
      have hsnapshots := hredone.snapshots.trans hshows.snapshots.symm
      have hpointer := hredone.pointer.trans hshows.pointer.symm
      refine ⟨_, Prod.ext rfl ?_, hsnapshots, hpointer⟩
      rw [h.graph hshows]
      exact hredo

end Implementation

/-- **Undo and redo** of both classes refine one bounded history, and so the two agree. -/
theorem history_refined (empty initial : G) (calls : List (StateCall G)) :
    (Implementation.ld empty).Refines initial calls ∧ (Implementation.fbd empty).Refines initial calls ∧
      ((Implementation.ld empty).runs initial calls).2 = ((Implementation.fbd empty).runs initial calls).2 := by
  have hld := (ld_correct empty).refines initial calls
  have hfbd := (fbd_correct empty).refines initial calls
  exact ⟨hld, hfbd, hld.replies.trans hfbd.replies.symm⟩

/-! ## Past the limit -/

/-- Texts as their own serialization. -/
instance : JsonFormat String := ⟨id, id, fun _ => rfl⟩

/-- Fifty-one operations, three undos and ten more operations. -/
def pastLimit : List (StateCall String) :=
  List.replicate 51 (.applyOperation fun _ => some "b") ++ List.replicate 3 .undo ++
    List.replicate 10 (.applyOperation fun _ => some "c")

theorem history_refined_pastLimit : ((Implementation.ld "").runs "a" pastLimit).1.snapshots =
    List.replicate 40 "b" ++ List.replicate 10 "c" ∧
      ((Implementation.ld "").runs "a" pastLimit).2 = ((Implementation.fbd "").runs "a" pastLimit).2 :=
  ⟨by decide +kernel, (history_refined "" "a" pastLimit).2.2⟩

end Audesys.Editor
