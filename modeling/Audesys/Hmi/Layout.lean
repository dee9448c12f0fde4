import Audesys.Lib.Json

/-!
# `Hmi.Layout` — layouts that are exported and imported

The HMI designer checks a layout (`useHmiLayoutValidator.ts`), writes it out as YAML and reads a text back
(`useHmiLayout.ts`). The reader is `JSON.parse`, which takes no text of the writer (`parse_exportYaml`): an import of an
export changes nothing (`not_restored`).
-/

namespace Audesys.Hmi

open Audesys.Lib

/-! ## Layouts -/

inductive HmiWidgetType where
  | gauge | button | text | indicator | trend | tank | display | camera
  deriving DecidableEq

def HmiWidgetType.name : HmiWidgetType → JsString
  | gauge => js "gauge"
  | button => js "button"
  | text => js "text"
  | indicator => js "indicator"
  | trend => js "trend"
  | tank => js "tank"
  | display => js "display"
  | camera => js "camera"

structure HmiWidgetPosition (N : Type) where
  x : N
  y : N

structure HmiWidgetSize (N : Type) where
  width : N
  height : N

/-- A `config` is a record of any values. -/
structure HmiWidgetState (N : Type) where
  id : JsString
  type : HmiWidgetType
  position : HmiWidgetPosition N
  size : HmiWidgetSize N
  label : JsString
  signal : Option JsString
  config : List (JsString × Json N)

/-- The `version` is always 1. -/
structure HmiLayout (N : Type) where
  name : JsString
  canvasWidth : N
  canvasHeight : N
  widgets : List (HmiWidgetState N)

variable {N : Type} [JsNumber N]

open JsNumber

/-! ## The check -/

def minSize (type : HmiWidgetType) : HmiWidgetSize N :=
  match type with
  | .gauge => ⟨ofNat 40, ofNat 40⟩
  | .trend => ⟨ofNat 80, ofNat 80⟩
  | _ => ⟨ofNat 20, ofNat 20⟩

structure ValidationResult where
  errors : List JsString
  warnings : List JsString
  deriving DecidableEq

structure ValidationOptions (N : Type) where
  canvasWidth : Option N
  canvasHeight : Option N
  signalNames : Option (List JsString)
  maxWidgets : Option N

def noOptions : ValidationOptions N := ⟨none, none, none, none⟩

omit [JsNumber N] in
/-- The value of a `config` entry with `typeof v === "number"`. -/
def numberOf (config : List (JsString × Json N)) (key : String) : Option N :=
  match (Json.obj config).get? (js key) with
  | some (.num n) => some n
  | _ => none

/-- A message, if there is reason for it. -/
def report (condition : Bool) (text : JsString) : List JsString := if condition then [text] else []

def widgetPrefix (index : Nat) (w : HmiWidgetState N) : JsString :=
  if w.id ≠ [] then js "widget '" ++ w.id ++ js "'" else js "widget at index " ++ toText (ofNat index : N)

def gaugeErrors (intro : JsString) (config : List (JsString × Json N)) : List JsString :=
  match numberOf config "min", numberOf config "max" with
  | some min, some max =>
    report (le max min) (intro ++ js ": min (" ++ toText min ++ js ") must be less than max (" ++ toText max ++ js ")")
  | _, _ => []

def trendErrors (intro : JsString) (config : List (JsString × Json N)) : List JsString :=
  match numberOf config "timespan" with
  | some timespan =>
    report (le timespan (ofNat 0)) (intro ++ js ": timespan (" ++ toText timespan ++ js ") must be greater than 0")
  | none => []

/-- The errors of one round of the loop, on a canvas and after the widgets with these ids. -/
def widgetErrors (cw ch : N) (seenIds : List JsString) (index : Nat) (w : HmiWidgetState N) : List JsString :=
  let intro := widgetPrefix index w
  let right := add w.position.x w.size.width
  let bottom := add w.position.y w.size.height
  let min := minSize w.type
  let forType := js " for type '" ++ w.type.name ++ js "'"
  report (w.id = []) (js "widget missing required field 'id'") ++
    report (w.type.name = []) (intro ++ js " missing required field 'type'") ++
    report (lt w.position.x (ofNat 0)) (intro ++ js " has negative position x=" ++ toText w.position.x) ++
    report (lt w.position.y (ofNat 0)) (intro ++ js " has negative position y=" ++ toText w.position.y) ++
    report (lt cw right)
      (intro ++ js " exceeds canvas boundary (x+width=" ++ toText right ++ js " > " ++ toText cw ++ js ")") ++
    report (lt ch bottom)
      (intro ++ js " exceeds canvas boundary (y+height=" ++ toText bottom ++ js " > " ++ toText ch ++ js ")") ++
    report (le w.size.width (ofNat 0)) (intro ++ js " has invalid dimensions: width=" ++ toText w.size.width) ++
    report (le w.size.height (ofNat 0)) (intro ++ js " has invalid dimensions: height=" ++ toText w.size.height) ++
    report (lt (ofNat 0) w.size.width && lt w.size.width min.width)
      (intro ++ js " width " ++ toText w.size.width ++ js " below minimum " ++ toText min.width ++ forType) ++
    report (lt (ofNat 0) w.size.height && lt w.size.height min.height)
      (intro ++ js " height " ++ toText w.size.height ++ js " below minimum " ++ toText min.height ++ forType) ++
    report (w.id ≠ [] ∧ w.id ∈ seenIds) (js "duplicate widget id '" ++ w.id ++ js "'") ++
    (if w.type = .gauge then gaugeErrors intro w.config else []) ++
    (if w.type = .trend then trendErrors intro w.config else [])

def widgetWarnings (signalNames : Option (List JsString)) (index : Nat) (w : HmiWidgetState N) : List JsString :=
  let intro := widgetPrefix index w
  match w.signal, signalNames with
  | none, _ => []
  | some [], _ => [intro ++ js " has empty signal name — widget will not receive values"]
  | some signal, some signalNames =>
    report (signal ∉ signalNames) (intro ++ js " bound to unknown signal '" ++ signal ++ js "'")
  | some _, none => []

/-- What the number of widgets gives. -/
def countResult (maxW : N) (count : Nat) : ValidationResult :=
  if count = 0 then ⟨[js "layout must contain at least 1 widget"], []⟩
  else if lt maxW (ofNat count) then
    ⟨[js "widget count " ++ toText (ofNat count : N) ++ js " exceeds maximum of " ++ toText maxW], []⟩
  else if 30 < count then
    ⟨[], [js "widget count " ++ toText (ofNat count : N) ++ js " exceeds recommended limit of " ++
      toText (ofNat 30 : N)]⟩
  else ⟨[], []⟩

def validateLayout (layout : HmiLayout N) (options : ValidationOptions N) : ValidationResult :=
  let maxW := options.maxWidgets.getD (ofNat 50)
  let cw := options.canvasWidth.getD layout.canvasWidth
  let ch := options.canvasHeight.getD layout.canvasHeight
  let round := fun (acc : ValidationResult × List JsString) ((w, index) : HmiWidgetState N × Nat) =>
    (⟨acc.1.errors ++ widgetErrors cw ch acc.2 index w, acc.1.warnings ++ widgetWarnings options.signalNames index w⟩,
      if w.id = [] then acc.2 else w.id :: acc.2)
  (layout.widgets.zipIdx.foldl round (countResult maxW layout.widgets.length, [])).1

/-! ## Export and import -/

def widgetLines (w : HmiWidgetState N) : List JsString :=
  [js "  - id: " ++ w.id,
    js "    type: " ++ w.type.name,
    js "    position_x: " ++ toText w.position.x,
    js "    position_y: " ++ toText w.position.y,
    js "    size_width: " ++ toText w.size.width,
    js "    size_height: " ++ toText w.size.height,
    js "    label: " ++ w.label] ++
  match w.signal with
  | none | some [] => []
  | some signal => [js "    signal: " ++ signal]

def exportYaml (layout : HmiLayout N) : JsString :=
  (js "\n").intercalate
    ([js "version: " ++ toText (ofNat 1 : N),
      js "name: " ++ layout.name,
      js "canvas_width: " ++ toText layout.canvasWidth,
      js "canvas_height: " ++ toText layout.canvasHeight,
      js "widgets:"] ++ layout.widgets.flatMap widgetLines)

/-- Through a text and back. -/
def clone (v : Json N) : Option (Json N) := Json.parse (Json.stringify v)

/-- What `importYaml` calls `setLayout` with; an exception is caught, and there is no call. -/
def importedYaml (yamlStr : JsString) : Option (Json N) := do
  let parsed ← Json.parse yamlStr
  clone parsed

/-- The current layout after `importYaml`. -/
def importYaml (layout : Json N) (yamlStr : JsString) : Json N := (importedYaml yamlStr).getD layout

/-- A value that has all of a widget. -/
structure SameWidget (v : Json N) (w : HmiWidgetState N) : Prop where
  id : v.get? (js "id") = some (.str w.id)
  type : v.get? (js "type") = some (.str w.type.name)
  x : (v.get? (js "position")).bind (·.get? (js "x")) = some (.num w.position.x)
  y : (v.get? (js "position")).bind (·.get? (js "y")) = some (.num w.position.y)
  width : (v.get? (js "size")).bind (·.get? (js "width")) = some (.num w.size.width)
  height : (v.get? (js "size")).bind (·.get? (js "height")) = some (.num w.size.height)
  label : v.get? (js "label") = some (.str w.label)
  signal : v.get? (js "signal") = w.signal.map .str
  config : v.get? (js "config") = some (.obj w.config)

/-- A value that has all of a layout. -/
structure SameLayout (v : Json N) (layout : HmiLayout N) : Prop where
  version : v.get? (js "version") = some (.num (ofNat 1))
  name : v.get? (js "name") = some (.str layout.name)
  canvasWidth : v.get? (js "canvasWidth") = some (.num layout.canvasWidth)
  canvasHeight : v.get? (js "canvasHeight") = some (.num layout.canvasHeight)
  widgets : ∃ widgets, v.get? (js "widgets") = some (.arr widgets) ∧ List.Forall₂ SameWidget widgets layout.widgets

/-- The text begins with a letter that begins no JSON value. -/
theorem parse_exportYaml (layout : HmiLayout N) : Json.parse (N := N) (exportYaml layout) = none := by
  have hfirst : ∃ rest, exportYaml layout = unit 'v' :: rest := by
    unfold exportYaml
    rw [List.cons_append, List.cons_append, List.intercalate_cons_cons]
    exact ⟨_, rfl⟩
  obtain ⟨rest, hrest⟩ := hfirst
  rw [hrest, Json.parse_of_begins (by decide) (by decide)]

/-- **No layout survives**: the import of an export is without effect, whatever the current layout is. -/
theorem not_restored (layout : HmiLayout N) :
    (¬ ∃ v, importedYaml (N := N) (exportYaml layout) = some v ∧ SameLayout v layout) ∧
      ∀ current : Json N, importYaml current (exportYaml layout) = current := by
  have hnone : importedYaml (N := N) (exportYaml layout) = none := by
    unfold importedYaml
    rw [parse_exportYaml]
    rfl
  refine ⟨?_, ?_⟩
  · rintro ⟨v, hv, _⟩
    rw [hnone] at hv
    cases hv
  · intro current
    unfold importYaml
    rw [hnone, Option.getD_none]

/-- The integer of a literal, without its fraction and exponent. -/
def integerOf (text : JsString) : Int :=
  let (negative, s) := match text with
    | u :: s => if u = unit '-' then (true, s) else (false, u :: s)
    | [] => (false, [])
  let n : Nat := (s.takeWhile Json.isDigit).foldl (fun n u => 10 * n + (u.toNat - 48)) 0
  if negative then -n else n

/-- Whole numbers, which have exact doubles up to 2^53. -/
local instance integers : JsNumber Int where
  ofNat n := n
  add := (· + ·)
  lt a b := a < b
  le a b := a ≤ b
  isFinite _ := true
  toText n := js (toString n)
  ofText := integerOf

/-- A layout with one gauge. -/
def pressure : HmiLayout Int where
  name := js "Überdruck"
  canvasWidth := 1200
  canvasHeight := 800
  widgets := [{
    id := js "g1"
    type := .gauge
    position := ⟨100, 200⟩
    size := ⟨200, 160⟩
    label := js "Pressure"
    signal := some (js "tank.pressure")
    config := [(js "min", .num 0), (js "max", .num 10)] }]

theorem pressure_lost : validateLayout pressure noOptions = ⟨[], []⟩ ∧
    ¬ ∃ v, importedYaml (N := Int) (exportYaml pressure) = some v ∧ SameLayout v pressure := by
  refine ⟨by decide, ?_⟩
  rintro ⟨v, hv, _⟩
  unfold importedYaml at hv
  rw [parse_exportYaml] at hv
  cases hv

end Audesys.Hmi
