import Audesys.Lib.Edits
import Audesys.VarTable.Model

/-!
# `VarTable.Panel` — the table of the active editor's file

The two variable views (`gvl-view-widget.tsx` and `local-var-view-widget.tsx`), which differ in the files they follow and
in how they read and write them. The panel takes over the URI of the active editor at once and keeps the rows it shows
until the file has been read; reads and writes end in any order, and what they bring is put into the panel without a look
at the file it shows.

Each table carries its `Origin`: the text it was read from and the row edits since. `saved_iff` says when all that is
written to a file stems from that file.
-/

namespace Audesys.VarTable

open Audesys.Lib

/-! ## The two views -/

inductive View where
  | gvl
  | localVar
  deriving DecidableEq

namespace View

def exts : View → List (List Char)
  | .gvl => [".gvl".toList]
  | .localVar => [".st".toList, ".il".toList]

/-- The file has a table in this view. -/
def shows (view : View) (uri : String) : Bool := view.exts.any fun ext => ext.isSuffixOf (uri.toList.map Char.toLower)

def parse : View → List Char → List GvlVariable
  | .gvl => parseGvl
  | .localVar => parseLocalVars

def serialize : View → List Char → List GvlVariable → List Char
  | .gvl => fun _ vars => serializeGvl vars
  | .localVar => serializeLocalVars

/-- The text that is read or written is kept for the next save. -/
def keepsText : View → Bool
  | .gvl => false
  | .localVar => true

def readFailure : View → String → String
  | .gvl, e => "Failed to read GVL: " ++ e
  | .localVar, e => "Failed to read file: " ++ e

def saveFailure : View → String → String
  | .gvl, e => "Failed to save GVL: " ++ e
  | .localVar, e => "Failed to save: " ++ e

end View

/-! ## Tables and their edits -/

/-- `Partial<GvlVariable>` with one field. -/
inductive Patch where
  | name (text : List Char)
  | type (text : List Char)
  | init (text : List Char)
  | comment (text : List Char)
  deriving DecidableEq

def Patch.apply (v : GvlVariable) : Patch → GvlVariable
  | .name text => { v with name := text }
  | .type text => { v with type := text }
  | .init text => { v with init := text }
  | .comment text => { v with comment := text }

/-- `updateVar`, `addVar` and `removeVar`, and what a save does to the rows. -/
inductive RowEdit where
  | update (index : Nat) (patch : Patch)
  | add
  | remove (index : Nat)
  | dropNameless
  deriving DecidableEq

def RowEdit.apply (vars : List GvlVariable) : RowEdit → List GvlVariable
  | .update index patch => vars.modify index patch.apply
  | .add => vars ++ [⟨[], "BOOL".toList, [], []⟩]
  | .remove index => vars.eraseIdx index
  | .dropNameless => vars.filter fun v => trimText v.name != []

/-- Where the rows of a table come from: a text read from a file, and the edits since. -/
structure Origin where
  uri : String
  text : List Char
  edits : List RowEdit
  deriving DecidableEq

def Origin.rows (view : View) (o : Origin) : List GvlVariable := o.edits.foldl RowEdit.apply (view.parse o.text)

def Origin.edit (o : Origin) (e : RowEdit) : Origin := { o with edits := o.edits ++ [e] }

/-! ## The panel -/

/-- The state of the widget. The GVL view has no `originalText`; it stays empty there. -/
structure Panel where
  uri : Option String
  originalText : List Char
  vars : List GvlVariable
  error : Option String
  loading : Bool
  dirty : Bool
  deriving DecidableEq

/-- `EMPTY_STATE`. -/
def Panel.empty : Panel := ⟨none, [], [], none, false, false⟩

/-- What `save` captures, with what it writes. `origin` is that of the rows, `textFrom` the file the original text was
read from or written to. -/
structure Save where
  uri : String
  vars : List GvlVariable
  content : List Char
  origin : Option Origin
  textFrom : Option String
  deriving DecidableEq

/-- A read or a write that has changed the rows: its file, and whether a read has failed. -/
structure Completion where
  uri : String
  ok : Bool
  deriving DecidableEq

/-- The panel with its calls under way (the file of each read, and each save), all saves so far, and the history: the
origin of the rows, the file of the original text, and what has changed the rows last since the panel was empty. -/
structure Session where
  panel : Panel
  reads : List String
  writes : List Save
  saved : List Save
  origin : Option Origin
  textFrom : Option String
  last : Option Completion
  deriving DecidableEq

inductive Event where
  /-- `onActiveEditorChanged`; an empty URI is no editor. -/
  | activate (uri : String)
  /-- The end of the read with the number. -/
  | readDone (i : Nat) (result : Except String (List Char))
  | edit (e : RowEdit)
  | save
  /-- The end of the write with the number. -/
  | writeDone (i : Nat) (result : Except String Unit)

namespace Session

def init : Session := ⟨.empty, [], [], [], none, none, none⟩

/-- `handleActiveEditor`. -/
def activate (view : View) (s : Session) (uri : String) : Session :=
  if !view.shows uri then
    if s.panel.uri ≠ none then { s with panel := .empty, origin := none, textFrom := none, last := none } else s
  else if s.panel.uri = some uri then s
  else { s with panel := { s.panel with uri := some uri, loading := true, error := none }, reads := s.reads ++ [uri] }

/-- `loadVars`, behind its `await`. -/
def readDone (view : View) (s : Session) (i : Nat) (result : Except String (List Char)) : Session :=
  match s.reads[i]? with
  | none => s
  | some uri =>
    match result with
    | .ok text =>
      { s with
          panel := { s.panel with
            originalText := if view.keepsText then text else s.panel.originalText
            vars := view.parse text
            loading := false
            dirty := false }
          reads := s.reads.eraseIdx i
          origin := some ⟨uri, text, []⟩
          textFrom := if view.keepsText then some uri else s.textFrom
          last := some ⟨uri, true⟩ }
    | .error e =>
      { s with
          panel := { s.panel with vars := [], loading := false, error := some (view.readFailure e) }
          reads := s.reads.eraseIdx i
          origin := none
          last := some ⟨uri, false⟩ }

/-- The edit is offered: the table is on the screen, and has the row. -/
def Offers (s : Session) : RowEdit → Prop
  | .update index _ => s.panel.uri ≠ none ∧ index < s.panel.vars.length
  | .add => s.panel.uri ≠ none
  | .remove index => s.panel.uri ≠ none ∧ index < s.panel.vars.length
  | .dropNameless => False

instance (s : Session) (e : RowEdit) : Decidable (s.Offers e) :=
  match e with
  | .update _ _ => inferInstanceAs (Decidable (_ ∧ _))
  | .add => inferInstanceAs (Decidable (_ ≠ _))
  | .remove _ => inferInstanceAs (Decidable (_ ∧ _))
  | .dropNameless => inferInstanceAs (Decidable False)

def edit (s : Session) (e : RowEdit) : Session :=
  if s.Offers e then
    { s with panel := { s.panel with vars := e.apply s.panel.vars, dirty := true }, origin := s.origin.map (·.edit e) }
  else s

/-- What `save` writes to the file. -/
def capture (view : View) (s : Session) (uri : String) : Save :=
  let valid := RowEdit.dropNameless.apply s.panel.vars
  { uri := uri
    vars := valid
    content := view.serialize s.panel.originalText valid
    origin := s.origin.map (·.edit .dropNameless)
    textFrom := s.textFrom }

/-- `save`, up to its `await`. The button is disabled unless there are changes. -/
def save (view : View) (s : Session) : Session :=
  match s.panel.uri with
  | none => s
  | some uri =>
    if s.panel.dirty then
      { s with writes := s.writes ++ [s.capture view uri], saved := s.saved ++ [s.capture view uri] }
    else s

/-- `save`, behind its `await`. -/
def writeDone (view : View) (s : Session) (i : Nat) (result : Except String Unit) : Session :=
  match s.writes[i]? with
  | none => s
  | some w =>
    match result with
    | .ok () =>
      { s with
          panel := { s.panel with
            originalText := if view.keepsText then w.content else s.panel.originalText
            vars := w.vars
            dirty := false
            error := none }
          writes := s.writes.eraseIdx i
          origin := w.origin
          textFrom := if view.keepsText then some w.uri else s.textFrom
          last := some ⟨w.uri, true⟩ }
    | .error e =>
      { s with panel := { s.panel with error := some (view.saveFailure e) }, writes := s.writes.eraseIdx i }

def step (view : View) (s : Session) : Event → Session
  | .activate uri => s.activate view uri
  | .readDone i result => s.readDone view i result
  | .edit e => s.edit e
  | .save => s.save view
  | .writeDone i result => s.writeDone view i result

end Session

/-! ## What is saved -/

/-- **A save into its own file**: the rows are obtained by row edits from a text read from that file, and so is what is
written around them. -/
structure Save.Own (view : View) (w : Save) : Prop where
  rows : ∃ o, w.origin = some o ∧ o.uri = w.uri ∧ w.vars = o.rows view
  text : view = .localVar → w.textFrom = some w.uri

/-- Nothing is saved into another file. -/
def Session.Own (view : View) (s : Session) : Prop := ∀ w ∈ s.saved, w.Own view

/-- What has changed the rows last belongs to the file that is saved, and is no failed read. -/
def Session.Settled (s : Session) : Event → Prop
  | .save => ∀ uri, s.panel.uri = some uri → s.panel.dirty = true → s.last = some ⟨uri, true⟩
  | _ => True

/-! ## The invariant -/

/-- Nothing went to another file so far, and the rows and the text belong to what has changed them last. -/
structure Kept (view : View) (s : Session) : Prop where
  own : s.Own view
  writes : ∀ w ∈ s.writes, w ∈ s.saved
  rows : ∀ o, s.origin = some o → s.panel.vars = o.rows view ∧ s.last = some ⟨o.uri, true⟩
  last : ∀ uri, s.last = some ⟨uri, true⟩ →
    (∃ o, s.origin = some o ∧ o.uri = uri) ∧ (view = .localVar → s.textFrom = some uri)

variable {view : View} {s : Session}

theorem Origin.rows_edit (o : Origin) (e : RowEdit) : (o.edit e).rows view = e.apply (o.rows view) := by
  unfold Origin.rows Origin.edit
  rw [List.foldl_append]
  rfl

theorem kept_init : Kept view .init where
  own := fun _ h => absurd h List.not_mem_nil
  writes := fun _ h => absurd h List.not_mem_nil
  rows := fun _ h => by cases h
  last := fun _ h => by cases h

theorem Kept.activate (h : Kept view s) (uri : String) : Kept view (s.activate view uri) := by
  unfold Session.activate
  by_cases hshows : (!view.shows uri) = true
  · rw [if_pos hshows]
    -- the table is cleared, and its rows are of no file
    by_cases huri : s.panel.uri ≠ none
    · rw [if_pos huri]
      exact ⟨h.own, h.writes, fun _ ho => (by cases ho), fun _ hl => by cases hl⟩
    · rw [if_neg huri]
      exact h
  · rw [if_neg hshows]
    by_cases huri : s.panel.uri = some uri
    · rw [if_pos huri]
      exact h
    · -- the rows stay until the new file is read
      rw [if_neg huri]
      exact ⟨h.own, h.writes, h.rows, h.last⟩

theorem Kept.readDone (h : Kept view s) (i : Nat) (result : Except String (List Char)) :
    Kept view (s.readDone view i result) := by
  unfold Session.readDone
  cases s.reads[i]? with
  | none => exact h
  | some uri =>
    cases result with
    | error e => exact ⟨h.own, h.writes, fun _ ho => (by cases ho), fun _ hl => by cases hl⟩
    | ok text =>
      refine ⟨h.own, h.writes, ?_, ?_⟩
      · intro o ho
        cases ho
        exact ⟨rfl, rfl⟩
      · intro uri' hl
        cases hl
        refine ⟨⟨_, rfl, rfl⟩, ?_⟩
        rintro rfl
        rfl

theorem Kept.edit (h : Kept view s) (e : RowEdit) : Kept view (s.edit e) := by
  unfold Session.edit
  by_cases hoffers : s.Offers e
  · rw [if_pos hoffers]
    refine ⟨h.own, h.writes, ?_, ?_⟩
    · intro o ho
      obtain ⟨o', ho', rfl⟩ := Option.map_eq_some_iff.1 ho
      obtain ⟨hrows, hlast⟩ := h.rows o' ho'
      exact ⟨(congrArg e.apply hrows).trans (o'.rows_edit e).symm, hlast⟩
    · intro uri hlast
      obtain ⟨⟨o, ho, huri⟩, htext⟩ := h.last uri hlast
      exact ⟨⟨o.edit e, congrArg (Option.map fun o => o.edit e) ho, huri⟩, htext⟩
  · rw [if_neg hoffers]
    exact h

/-- A save goes to its own file exactly where what has changed the rows last belongs to it. -/
theorem Kept.capture_iff (h : Kept view s) (uri : String) :
    (s.capture view uri).Own view ↔ s.last = some ⟨uri, true⟩ := by
  constructor
  · rintro ⟨⟨o, ho, huri, _⟩, _⟩
    obtain ⟨o', ho', rfl⟩ := Option.map_eq_some_iff.1 ho
    have hlast := (h.rows o' ho').2
    have huri' : o'.uri = uri := huri
    rw [huri'] at hlast
    exact hlast
  · intro hlast
    obtain ⟨⟨o, ho, huri⟩, htext⟩ := h.last uri hlast
    have horigin : (s.capture view uri).origin = some (o.edit .dropNameless) :=
      congrArg (Option.map (Origin.edit · .dropNameless)) ho
    refine ⟨⟨_, horigin, huri, ?_⟩, htext⟩
    exact (congrArg RowEdit.dropNameless.apply (h.rows o ho).1).trans (o.rows_edit .dropNameless).symm

theorem Session.save_eq {uri : String} (huri : s.panel.uri = some uri) (hdirty : s.panel.dirty = true) :
    s.save view =
      { s with writes := s.writes ++ [s.capture view uri], saved := s.saved ++ [s.capture view uri] } := by
  unfold Session.save
  rw [huri]
  dsimp only
  rw [if_pos hdirty]

/-- The button does nothing without a file or without changes. -/
theorem Session.save_disabled (h : ∀ uri, s.panel.uri = some uri → s.panel.dirty = false) : s.save view = s := by
  unfold Session.save
  cases huri : s.panel.uri with
  | none => rfl
  | some uri =>
    dsimp only
    rw [if_neg]
    rw [h uri huri]
    exact Bool.false_ne_true

theorem Session.own_append {w : Save} (h : s.Own view) :
    (∀ w' ∈ s.saved ++ [w], w'.Own view) ↔ w.Own view := by
  constructor
  · exact fun hall => hall w (List.mem_append_right _ (List.mem_singleton_self w))
  · intro hw w' hw'
    rcases List.mem_append.1 hw' with hold | hnew
    · exact h w' hold
    · rw [List.mem_singleton.1 hnew]
      exact hw

theorem Kept.save (h : Kept view s) (hsettled : s.Settled .save) : Kept view (s.save view) := by
  by_cases hsave : ∃ uri, s.panel.uri = some uri ∧ s.panel.dirty = true
  · obtain ⟨uri, huri, hdirty⟩ := hsave
    rw [Session.save_eq huri hdirty]
    refine ⟨(Session.own_append h.own).2 ((h.capture_iff uri).2 (hsettled uri huri hdirty)), ?_, h.rows, h.last⟩
    intro w hw
    rcases List.mem_append.1 hw with hold | hnew
    · exact List.mem_append_left _ (h.writes w hold)
    · exact List.mem_append_right _ hnew
  · rw [Session.save_disabled]
    · exact h
    · intro uri huri
      exact Bool.eq_false_iff.2 fun hdirty => hsave ⟨uri, huri, hdirty⟩

theorem Kept.writeDone (h : Kept view s) (i : Nat) (result : Except String Unit) :
    Kept view (s.writeDone view i result) := by
  unfold Session.writeDone
  cases hw : s.writes[i]? with
  | none => exact h
  | some w =>
    have hwrites : ∀ w' ∈ s.writes.eraseIdx i, w' ∈ s.saved := fun w' hw' => h.writes w' (List.mem_of_mem_eraseIdx hw')
    cases result with
    | error e => exact ⟨h.own, hwrites, h.rows, h.last⟩
    | ok =>
      -- the rows are again what was saved, which belongs to the file of the save
      obtain ⟨⟨o, ho, huri, hrows⟩, htext⟩ := h.own w (h.writes w (List.mem_of_getElem? hw))
      refine ⟨h.own, hwrites, ?_, ?_⟩
      · intro o' ho'
        cases ho.symm.trans ho'
        rw [huri]
        exact ⟨hrows, rfl⟩
      · intro uri hlast
        cases hlast
        refine ⟨⟨o, ho, huri⟩, ?_⟩
        rintro rfl
        rfl

/-! ## Whole sessions -/

/-- **Tables are saved into their own files exactly where the panel has settled at each save**: in both views, for every
order of editor changes, reads, edits, saves and writes. -/
theorem saved_iff (view : View) (events : List Event) :
    Always (Session.step view) (Session.Own view) .init events ↔
      EveryStep (Session.step view) Session.Settled .init events := by
  apply always_iff (I := Kept view)
  · exact fun _ h => h.own
  · intro s e h hsettled
    cases e with
    | activate uri => exact h.activate uri
    | readDone i result => exact h.readDone i result
    | edit e => exact h.edit e
    | save => exact h.save hsettled
    | writeDone i result => exact h.writeDone i result
  · intro s e h hown
    cases e with
    | save =>
      -- the save that was just made is its own only where the panel has settled
      intro uri huri hdirty
      unfold Session.step at hown
      rw [Session.save_eq huri hdirty] at hown
      exact (h.capture_iff uri).1 ((Session.own_append h.own).1 hown)
    | _ => trivial
  · exact kept_init

/-- Two files, the second activated, edited and saved before it has been read. -/
def hasty : List Event :=
  [.activate "file:///a.gvl", .readDone 0 (.ok "VAR_GLOBAL\n  a : INT;\nEND_VAR\n".toList), .activate "file:///b.gvl",
    .edit (.remove 0), .save]

/-- The rows of the first file are written to the second. -/
theorem saved_fails : ¬ ∀ (view : View) (events : List Event),
    Always (Session.step view) (Session.Own view) .init events := by
  intro h
  have hown := h .gvl hasty hasty (List.prefix_refl _)
  have hsaved : (hasty.foldl (Session.step .gvl) .init).saved = [⟨"file:///b.gvl", [], serializeGvl [],
      some ⟨"file:///a.gvl", "VAR_GLOBAL\n  a : INT;\nEND_VAR\n".toList, [.remove 0, .dropNameless]⟩, none⟩] := by decide
  have hfirst := hown _ (hsaved ▸ List.mem_singleton_self _)
  obtain ⟨o, ho, huri, _⟩ := hfirst.rows
  cases ho
  exact absurd huri (by decide)

end Audesys.VarTable
