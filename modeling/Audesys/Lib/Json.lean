import Audesys.Lib.Utf16

/-!
# `Lib.Json` — JSON texts

The values of JSON, `JSON.stringify` and `JSON.parse`, over strings of UTF-16 code units and over any kind of numbers
that have a text. The parser descends recursively; its fuel counts down with the text.
-/

namespace Audesys.Lib

/-- A JavaScript string: its UTF-16 code units. -/
abbrev JsString := List UInt16

def js (s : String) : JsString := (utf16 s.toList).map UInt16.ofNat

def unit (c : Char) : UInt16 := .ofNat c.toNat

/-- The numbers of a JavaScript program. -/
class JsNumber (N : Type) where
  ofNat : Nat → N
  add : N → N → N
  lt : N → N → Bool
  le : N → N → Bool
  isFinite : N → Bool
  /-- `String(n)` -/
  toText : N → JsString
  /-- `Number(text)` of a decimal literal -/
  ofText : JsString → N

inductive Json (N : Type) where
  | null
  | bool (b : Bool)
  | num (n : N)
  | str (s : JsString)
  | arr (elements : List (Json N))
  | obj (members : List (JsString × Json N))

namespace Json

variable {N : Type} [JsNumber N]

omit [JsNumber N] in
/-- A property of an object; `none` is `undefined`. -/
def get? (v : Json N) (key : JsString) : Option (Json N) :=
  match v with
  | obj members => (members.find? fun m => m.1 = key).map (·.2)
  | _ => none

/-! ## `JSON.stringify` -/

def hexDigit (n : UInt16) : UInt16 := if n < 10 then unit '0' + n else unit 'a' + (n - 10)

/-- `\uXXXX` -/
def escaped (u : UInt16) : JsString :=
  js "\\u" ++ [hexDigit (u >>> 12), hexDigit (u >>> 8 &&& 15), hexDigit (u >>> 4 &&& 15), hexDigit (u &&& 15)]

/-- One code unit inside quotes. -/
def quoteUnit (u : UInt16) : JsString :=
  if u = 8 then js "\\b"
  else if u = 9 then js "\\t"
  else if u = 10 then js "\\n"
  else if u = 12 then js "\\f"
  else if u = 13 then js "\\r"
  else if u = unit '"' then js "\\\""
  else if u = unit '\\' then js "\\\\"
  else if u < 32 then escaped u
  else [u]

/-- The code units inside quotes; a surrogate that has no partner is escaped. -/
def quoteUnits : JsString → JsString
  | [] => []
  | [u] => if 0xD800 ≤ u ∧ u ≤ 0xDFFF then escaped u else quoteUnit u
  | u :: v :: s =>
    if 0xD800 ≤ u ∧ u ≤ 0xDBFF ∧ 0xDC00 ≤ v ∧ v ≤ 0xDFFF then u :: v :: quoteUnits s
    else if 0xD800 ≤ u ∧ u ≤ 0xDFFF then escaped u ++ quoteUnits (v :: s)
    else quoteUnit u ++ quoteUnits (v :: s)

def quote (s : JsString) : JsString := unit '"' :: quoteUnits s ++ [unit '"']

mutual
def stringify : Json N → JsString
  | null => js "null"
  | bool b => if b then js "true" else js "false"
  | num n => if JsNumber.isFinite n then JsNumber.toText n else js "null"
  | str s => quote s
  | arr elements => unit '[' :: stringifyElements elements ++ [unit ']']
  | obj members => unit '{' :: stringifyMembers members ++ [unit '}']

def stringifyElements : List (Json N) → JsString
  | [] => []
  | [v] => stringify v
  | v :: w :: elements => stringify v ++ unit ',' :: stringifyElements (w :: elements)

def stringifyMembers : List (JsString × Json N) → JsString
  | [] => []
  | [(key, v)] => quote key ++ unit ':' :: stringify v
  | (key, v) :: m :: members => quote key ++ unit ':' :: stringify v ++ unit ',' :: stringifyMembers (m :: members)
end

/-! ## `JSON.parse` -/

def isSpace (u : UInt16) : Bool := u = 9 || u = 10 || u = 13 || u = 32

def skipSpace (s : JsString) : JsString := s.dropWhile isSpace

/-- The text behind a word. -/
def afterWord (word s : JsString) : Option JsString := if word <+: s then some (s.drop word.length) else none

def isDigit (u : UInt16) : Bool := unit '0' ≤ u && u ≤ unit '9'

def hexValue (u : UInt16) : Option UInt16 :=
  if unit '0' ≤ u ∧ u ≤ unit '9' then some (u - unit '0')
  else if unit 'a' ≤ u ∧ u ≤ unit 'f' then some (u - unit 'a' + 10)
  else if unit 'A' ≤ u ∧ u ≤ unit 'F' then some (u - unit 'A' + 10)
  else none

/-- What stands behind a backslash, other than `u`. -/
def unescape (u : UInt16) : Option UInt16 :=
  if u = unit '"' ∨ u = unit '\\' ∨ u = unit '/' then some u
  else if u = unit 'b' then some 8
  else if u = unit 'f' then some 12
  else if u = unit 'n' then some 10
  else if u = unit 'r' then some 13
  else if u = unit 't' then some 9
  else none

/-- A string behind its opening quote, and the text behind it. -/
def stringBody : JsString → Option (JsString × JsString)
  | [] => none
  | u :: s =>
    if u = unit '"' then some ([], s)
    else if u < 32 then none
    else if u ≠ unit '\\' then (stringBody s).map fun (t, s) => (u :: t, s)
    else
      match s with
      | [] => none
      | e :: s =>
        if e ≠ unit 'u' then do
          let v ← unescape e
          (stringBody s).map fun (t, s) => (v :: t, s)
        else
          match s with
          | a :: b :: c :: d :: s => do
            let a ← hexValue a
            let b ← hexValue b
            let c ← hexValue c
            let d ← hexValue d
            (stringBody s).map fun (t, s) => ((((a * 16 + b) * 16 + c) * 16 + d) :: t, s)
          | _ => none

/-- At least one digit. -/
def digits (s : JsString) : Option (JsString × JsString) :=
  if s.takeWhile isDigit = [] then none else some (s.takeWhile isDigit, s.dropWhile isDigit)

/-- The literal of a number: sign, integer, fraction, exponent. -/
def numberToken (s : JsString) : Option (JsString × JsString) := do
  let (sign, s) := match s with
    | u :: s => if u = unit '-' then ([u], s) else ([], u :: s)
    | [] => ([], [])
  let (integer, s) ← match s with
    | u :: s => if u = unit '0' then some ([u], s) else digits (u :: s)
    | [] => none
  let (fraction, s) ← match s with
    | u :: s => if u = unit '.' then (digits s).map fun (ds, s) => (u :: ds, s) else some ([], u :: s)
    | [] => some ([], [])
  let (exponent, s) ← match s with
    | u :: s =>
      if u = unit 'e' ∨ u = unit 'E' then
        match s with
        | v :: s =>
          if v = unit '+' ∨ v = unit '-' then (digits s).map fun (ds, s) => (u :: v :: ds, s)
          else (digits (v :: s)).map fun (ds, s) => (u :: ds, s)
        | [] => none
      else some ([], u :: s)
    | [] => some ([], [])
  some (sign ++ integer ++ fraction ++ exponent, s)

omit [JsNumber N] in
/-- The last value of a key counts. -/
def insert (members : List (JsString × Json N)) (m : JsString × Json N) : List (JsString × Json N) :=
  if members.any fun old => old.1 = m.1 then members.map fun old => if old.1 = m.1 then m else old else members ++ [m]

mutual
def parseValue : Nat → JsString → Option (Json N × JsString)
  | 0, _ => none
  | fuel + 1, s =>
    match skipSpace s with
    | [] => none
    | u :: s =>
      if u = unit '"' then (stringBody s).map fun (t, s) => (str t, s)
      else if u = unit '[' then
        match skipSpace s with
        | [] => none
        | v :: s =>
          if v = unit ']' then some (arr [], s)
          else (parseElements fuel (v :: s)).map fun (elements, s) => (arr elements, s)
      else if u = unit '{' then
        match skipSpace s with
        | [] => none
        | v :: s =>
          if v = unit '}' then some (obj [], s)
          else (parseMembers fuel (v :: s)).map fun (members, s) => (obj (members.foldl insert []), s)
      else
        match afterWord (js "null") (u :: s), afterWord (js "true") (u :: s), afterWord (js "false") (u :: s) with
        | some s, _, _ => some (null, s)
        | _, some s, _ => some (bool true, s)
        | _, _, some s => some (bool false, s)
        | _, _, _ => (numberToken (u :: s)).map fun (t, s) => (num (JsNumber.ofText t), s)

/-- The elements of an array, with its closing bracket. -/
def parseElements : Nat → JsString → Option (List (Json N) × JsString)
  | 0, _ => none
  | fuel + 1, s => do
    let (v, s) ← parseValue fuel s
    match skipSpace s with
    | [] => none
    | u :: s =>
      if u = unit ',' then (parseElements fuel s).map fun (elements, s) => (v :: elements, s)
      else if u = unit ']' then some ([v], s)
      else none

/-- The members of an object, with its closing brace. -/
def parseMembers : Nat → JsString → Option (List (JsString × Json N) × JsString)
  | 0, _ => none
  | fuel + 1, s =>
    match skipSpace s with
    | [] => none
    | q :: s =>
      if q ≠ unit '"' then none
      else do
        let (key, s) ← stringBody s
        match skipSpace s with
        | [] => none
        | c :: s =>
          if c ≠ unit ':' then none
          else do
            let (v, s) ← parseValue fuel s
            match skipSpace s with
            | [] => none
            | u :: s =>
              if u = unit ',' then (parseMembers fuel s).map fun (members, s) => ((key, v) :: members, s)
              else if u = unit '}' then some ([(key, v)], s)
              else none
end

/-- `none` is a `SyntaxError`. An element takes two steps down, and at least one code unit. -/
def parse (text : JsString) : Option (Json N) := do
  let (v, s) ← parseValue (2 * text.length + 2) text
  if skipSpace s = [] then some v else none

/-! ## Texts that are refused -/

/-- What a value may begin with. -/
def begins (u : UInt16) : Bool :=
  isDigit u || [unit '"', unit '[', unit '{', unit '-', unit 'n', unit 't', unit 'f'].contains u

theorem afterWord_cons {v u : UInt16} {word s : JsString} (h : u ≠ v) : afterWord (v :: word) (u :: s) = none :=
  if_neg fun hword => h (List.cons_prefix_cons.1 hword).1.symm

theorem numberToken_cons {u : UInt16} {s : JsString} (hdigit : isDigit u = false) (hsign : u ≠ unit '-') :
    numberToken (u :: s) = none := by
  have hzero : u ≠ unit '0' := by
    rintro rfl
    cases hdigit
  have hdigits : digits (u :: s) = none := by
    unfold digits
    rw [List.takeWhile_cons_of_neg (Bool.eq_false_iff.1 hdigit), if_pos rfl]
  unfold numberToken
  dsimp only
  rw [if_neg hsign]
  dsimp only
  rw [if_neg hzero, hdigits]
  rfl

/-- No value begins with any other character. -/
theorem parse_of_begins {u : UInt16} {s : JsString} (hspace : isSpace u = false) (hbegins : begins u = false) :
    parse (N := N) (u :: s) = none := by
  unfold begins at hbegins
  rw [Bool.or_eq_false_iff] at hbegins
  obtain ⟨hdigit, hstart⟩ := hbegins
  have hnot : ∀ v ∈ [unit '"', unit '[', unit '{', unit '-', unit 'n', unit 't', unit 'f'], u ≠ v := by
    rintro v hv rfl
    rw [List.contains_iff_mem.2 hv] at hstart
    cases hstart
  have hnull : afterWord (js "null") (u :: s) = none := afterWord_cons (hnot (unit 'n') (by simp))
  have htrue : afterWord (js "true") (u :: s) = none := afterWord_cons (hnot (unit 't') (by simp))
  have hfalse : afterWord (js "false") (u :: s) = none := afterWord_cons (hnot (unit 'f') (by simp))
  have hskip : skipSpace (u :: s) = u :: s := List.dropWhile_cons_of_neg (Bool.eq_false_iff.1 hspace)
  unfold parse parseValue
  rw [hskip]
  dsimp only
  rw [if_neg (hnot _ (by simp)), if_neg (hnot _ (by simp)), if_neg (hnot _ (by simp)), hnull, htrue, hfalse]
  dsimp only
  rw [numberToken_cons hdigit (hnot _ (by simp))]
  rfl

end Json

end Audesys.Lib
