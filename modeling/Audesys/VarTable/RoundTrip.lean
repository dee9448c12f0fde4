import Audesys.VarTable.Blocks
import Mathlib

/-!
# `VarTable.RoundTrip` — tables that are written and read back

A row is read back from the line it is written to (`declaration_rowText`). So local variables come back whatever their names
(`localVars_back`). Global variables come back exactly if no name begins with `VAR_GLOBAL` or `END_VAR`, which the reader
takes for the ends of the block (`roundTrip_iff`).
-/

open List

namespace Audesys.VarTable

open Audesys.Lib

variable {vars : List GvlVariable} {v : GvlVariable} {s : List Char}

/-! ## Rows -/

def IsIdent (s : List Char) : Prop :=
  ∃ c rest, s = c :: rest ∧ isIdentStart c = true ∧ ∀ d ∈ rest, isIdentPart d = true

/-- What the fields of a row may contain. -/
structure Writable (v : GvlVariable) : Prop where
  name : IsIdent v.name
  type : IsIdent v.type
  init_semicolon : ';' ∉ v.init
  init_feed : '\n' ∉ v.init
  init_trim : trimText v.init = v.init
  comment_feed : '\n' ∉ v.comment
  comment_trim : trimText v.comment = v.comment

/-- The letters of identifiers lie between `0` and `z`. -/
theorem toNat_of_isIdentPart {c : Char} (h : isIdentPart c = true) : 48 ≤ c.toNat ∧ c.toNat ≤ 122 := by
  unfold isIdentPart Char.isAlphanum Char.isAlpha Char.isUpper Char.isLower Char.isDigit at h
  simp [UInt32.le_iff_toNat_le] at h
  unfold Char.toNat
  rcases h with ((h | h) | h) | rfl
  · exact ⟨Nat.le_trans (by decide) h.1, Nat.le_trans h.2 (by decide)⟩
  · exact ⟨Nat.le_trans (by decide) h.1, Nat.le_trans h.2 (by decide)⟩
  · exact ⟨Nat.le_trans (by decide) h.1, Nat.le_trans h.2 (by decide)⟩
  · decide

/-- No letter of an identifier is a blank. -/
theorem isSpace_of_isIdentPart {c : Char} (h : isIdentPart c = true) : isSpace c = false := by
  obtain ⟨hlow, hhigh⟩ := toNat_of_isIdentPart h
  unfold isSpace isJsSpace
  simp
  omega

theorem isIdentPart_of_isIdentStart {c : Char} (h : isIdentStart c = true) : isIdentPart c = true := by
  unfold isIdentStart at h
  unfold isIdentPart Char.isAlphanum
  rw [Bool.or_eq_true] at h ⊢
  exact h.imp_left fun halpha => by rw [halpha, Bool.true_or]

theorem IsIdent.isIdentPart (h : IsIdent s) : ∀ c ∈ s, isIdentPart c = true := by
  obtain ⟨c, rest, rfl, hc, hrest⟩ := h
  exact forall_mem_cons.2 ⟨isIdentPart_of_isIdentStart hc, hrest⟩

/-- A text goes on with a character, which no part of an identifier is. -/
theorem ident_append (h : IsIdent s) {d : Char} (hd : isIdentPart d = false) (rest : List Char) :
    ident (s ++ d :: rest) = some (s, d :: rest) := by
  obtain ⟨c, tail, rfl, hc, htail⟩ := h
  have hneg : ¬ isIdentPart d = true := Bool.eq_false_iff.1 hd
  rw [cons_append, ident, if_pos hc, takeWhile_append_of_pos htail, dropWhile_append_of_pos htail,
    takeWhile_cons_of_neg hneg, dropWhile_cons_of_neg hneg, List.append_nil]

/-! ## Trimming -/

/-- A text that neither begins nor ends with a blank. -/
theorem trimText_eq {c d : Char} (hc : isSpace c = false) (hd : isSpace d = false)
    (hfirst : s.head? = some c) (hlast : s.getLast? = some d) : trimText s = s := by
  obtain ⟨rest, rfl⟩ := head?_eq_some_iff.1 hfirst
  unfold trimText
  rw [dropWhile_cons_of_neg (Bool.eq_false_iff.1 hc), rdropWhile_eq_self_iff]
  intro hne hspace
  rw [getLast?_eq_some_getLast hne, Option.some.injEq] at hlast
  rw [hlast, hd] at hspace
  cases hspace

/-- Blanks in front go away. -/
theorem trimText_pad {pad s : List Char} (h : ∀ c ∈ pad, isSpace c = true) : trimText (pad ++ s) = trimText s := by
  unfold trimText
  rw [dropWhile_append_of_pos h]

/-- A blank at the end goes away. -/
theorem trimText_concat (s : List Char) {c : Char} (hc : isSpace c = true) : trimText (s ++ [c]) = trimText s := by
  unfold trimText
  rw [List.dropWhile_append]
  split
  · rename_i hempty
    rw [isEmpty_iff.1 hempty, dropWhile_cons_of_pos hc]
    rfl
  · exact rdropWhile_concat_pos _ _ _ hc

/-! ## One row -/

/-- The part of a row with the initial value. -/
def initText (init : List Char) : List Char := if init = [] then [] else " := ".toList ++ init

/-- The part of a row with the comment. -/
def commentText (comment : List Char) : List Char :=
  if comment = [] then [] else " (* ".toList ++ comment ++ " *)".toList

/-- A row without the blanks in front. -/
def rowText (v : GvlVariable) : List Char :=
  v.name ++ (' ' :: ':' :: ' ' :: (v.type ++ (initText v.init ++ ';' :: commentText v.comment)))

theorem row_eq (v : GvlVariable) : row v = "    ".toList ++ rowText v := by
  unfold row rowText initText commentText
  simp

theorem lineComment_commentText {comment : List Char} (h : trimText comment = comment) :
    lineComment (commentText comment) = some comment := by
  unfold commentText
  split
  · rename_i hnil
    rw [hnil]
    rfl
  · have hblank : isSpace ' ' = true := by decide
    have hspace : isSpace ')' = false := by decide
    have hbody : (" ".toList ++ comment ++ " *)".toList).rdropWhile isSpace = " ".toList ++ comment ++ " *)".toList := by
      rw [show " ".toList ++ comment ++ " *)".toList = (" ".toList ++ comment ++ " *".toList) ++ [')'] by simp]
      exact rdropWhile_concat_neg _ _ _ (by rw [hspace]; exact Bool.false_ne_true)
    have htake : (" ".toList ++ comment ++ " *)".toList).take ((" ".toList ++ comment ++ " *)".toList).length - 2) =
        " ".toList ++ comment ++ [' '] := by
      rw [show " ".toList ++ comment ++ " *)".toList = (" ".toList ++ comment ++ [' ']) ++ "*)".toList by simp]
      exact take_left' (by simp)
    have hsuffix : ['*', ')'] <:+ " ".toList ++ comment ++ " *)".toList :=
      ⟨" ".toList ++ comment ++ [' '], by simp⟩
    have hopen : (" (* ".toList ++ comment ++ " *)".toList).dropWhile isSpace =
        '(' :: '*' :: (" ".toList ++ comment ++ " *)".toList) := by
      show (' ' :: '(' :: '*' :: (" ".toList ++ comment ++ " *)".toList)).dropWhile isSpace = _
      rw [dropWhile_cons_of_pos hblank, dropWhile_cons_of_neg (by decide)]
    unfold lineComment
    rw [hopen]
    simp only [hbody, if_pos hsuffix, htake]
    rw [trimText_concat _ hblank, trimText_pad (all_eq_true.1 rfl), h]

theorem IsIdent.dropWhile_append (h : IsIdent s) (rest : List Char) :
    (s ++ rest).dropWhile isSpace = s ++ rest := by
  obtain ⟨c, tail, rfl, hc, _⟩ := h
  have hc' : isSpace c = false := isSpace_of_isIdentPart (isIdentPart_of_isIdentStart hc)
  exact dropWhile_cons_of_neg (Bool.eq_false_iff.1 hc')

/-- The part behind a declared type, as `varLine` reads it. -/
theorem ident_initText (h : Writable v) (rest : List Char) :
    ident (v.type ++ (initText v.init ++ ';' :: rest)) = some (v.type, initText v.init ++ ';' :: rest) := by
  unfold initText
  split
  · exact ident_append h.type (by decide) rest
  · exact ident_append h.type (by decide) _

/-- An initial value, in front of the semicolon. -/
theorem dropWhile_initText {init : List Char} (h : init ≠ []) (rest : List Char) :
    (initText init ++ ';' :: rest).dropWhile isSpace = ':' :: '=' :: ' ' :: (init ++ ';' :: rest) := by
  have hblank : isSpace ' ' = true := by decide
  unfold initText
  rw [if_neg h]
  show (' ' :: ':' :: '=' :: ' ' :: (init ++ ';' :: rest)).dropWhile isSpace = _
  rw [dropWhile_cons_of_pos hblank, dropWhile_cons_of_neg (by decide)]

/-- The text up to the semicolon, and from there on. -/
theorem upTo_semicolon (h : ';' ∉ s) (rest : List Char) :
    (s ++ ';' :: rest).takeWhile (· != ';') = s ∧ (s ++ ';' :: rest).dropWhile (· != ';') = ';' :: rest := by
  have hne : ∀ c ∈ s, (c != ';') = true := fun c hc => bne_iff_ne.2 fun heq => h (heq ▸ hc)
  constructor
  · rw [takeWhile_append_of_pos hne, takeWhile_cons_of_neg (by decide), List.append_nil]
  · rw [dropWhile_append_of_pos hne, dropWhile_cons_of_neg (by decide)]

/-- **A row is read back** from its text. -/
theorem varLine_rowText (h : Writable v) : varLine (rowText v) = some v := by
  have hblank : isSpace ' ' = true := by decide
  have hcolon : (' ' :: ':' :: ' ' :: (v.type ++ (initText v.init ++ ';' :: commentText v.comment))).dropWhile isSpace =
      ':' :: ' ' :: (v.type ++ (initText v.init ++ ';' :: commentText v.comment)) := by
    rw [dropWhile_cons_of_pos hblank, dropWhile_cons_of_neg (by decide)]
  have htype : (' ' :: (v.type ++ (initText v.init ++ ';' :: commentText v.comment))).dropWhile isSpace =
      v.type ++ (initText v.init ++ ';' :: commentText v.comment) := by
    rw [dropWhile_cons_of_pos hblank, h.type.dropWhile_append]
  unfold varLine rowText
  simp [h.name.dropWhile_append, ident_append h.name (d := ' ') (by decide), hcolon, htype, ident_initText h]
  by_cases hinit : v.init = []
  · have hdrop : (initText v.init ++ ';' :: commentText v.comment).dropWhile isSpace = ';' :: commentText v.comment := by
      unfold initText
      rw [if_pos hinit, nil_append, dropWhile_cons_of_neg (by decide)]
    rw [hdrop]
    show (lineComment (commentText v.comment)).map (fun comment => ⟨v.name, v.type, [], comment⟩) = some v
    rw [lineComment_commentText h.comment_trim, Option.map_some, ← hinit]
  · have hvalue : ';' ∉ ' ' :: v.init := by simpa using h.init_semicolon
    obtain ⟨htake, hrest⟩ := upTo_semicolon hvalue (commentText v.comment)
    have hpad : ∀ c ∈ [' '], isSpace c = true := all_eq_true.1 rfl
    have htrim : trimText (' ' :: v.init) = v.init := (trimText_pad hpad).trans h.init_trim
    rw [cons_append] at htake hrest
    simp [dropWhile_initText hinit, htake, hrest, htrim, lineComment_commentText h.comment_trim]

/-- The last character of a row. -/
theorem getLast?_rowText (v : GvlVariable) : (rowText v).getLast? = some ';' ∨ (rowText v).getLast? = some ')' := by
  unfold rowText commentText
  split
  · left
    rw [show v.name ++ ' ' :: ':' :: ' ' :: (v.type ++ (initText v.init ++ [';'])) =
      (v.name ++ " : ".toList ++ v.type ++ initText v.init) ++ [';'] by simp]
    exact getLast?_concat
  · right
    rw [show v.name ++ ' ' :: ':' :: ' ' :: (v.type ++ (initText v.init ++ ';' :: (" (* ".toList ++ v.comment ++
        " *)".toList))) =
      (v.name ++ " : ".toList ++ v.type ++ initText v.init ++ "; (* ".toList ++ v.comment ++ " *".toList) ++ [')']
      by simp]
    exact getLast?_concat

theorem trimText_row (h : IsIdent v.name) : trimText (row v) = rowText v := by
  have hfirst : ∃ c, (rowText v).head? = some c ∧ isSpace c = false := by
    obtain ⟨c, tail, hname, hc, _⟩ := h
    refine ⟨c, ?_, isSpace_of_isIdentPart (isIdentPart_of_isIdentStart hc)⟩
    unfold rowText
    rw [hname]
    rfl
  obtain ⟨c, hhead, hc⟩ := hfirst
  rw [row_eq, trimText_pad (all_eq_true.1 rfl)]
  rcases getLast?_rowText v with hlast | hlast
  · exact trimText_eq hc (by decide) hhead hlast
  · exact trimText_eq hc (by decide) hhead hlast

/-- Nothing is in front of a row that would hide it. -/
theorem declaration_rowText (h : Writable v) : declaration (rowText v) = some v := by
  obtain ⟨c, tail, hname, hc, _⟩ := h.name
  have hfirst : rowText v = c :: (tail ++ (' ' :: ':' :: ' ' :: (v.type ++ (initText v.init ++ ';' ::
      commentText v.comment)))) := by
    unfold rowText
    rw [hname, cons_append]
  have hshown : ¬ (rowText v = [] ∨ ['(', '*'] <+: rowText v) := by
    rw [hfirst]
    rintro (hnil | hopen)
    · cases hnil
    · obtain ⟨rfl, -⟩ := cons_prefix_cons.1 hopen
      exact absurd hc (by decide)
  unfold declaration
  rw [if_neg hshown, varLine_rowText h]

theorem isInner_row (h : Writable v) : IsInner (row v) := by
  have hident : ∀ s, IsIdent s → '\n' ∉ s := fun s hs hfeed => absurd (hs.isIdentPart _ hfeed) (by decide)
  have hname := hident _ h.name
  have htype := hident _ h.type
  have hinit := h.init_feed
  have hcomment := h.comment_feed
  have hlast : (row v).getLast? = (rowText v).getLast? := by
    obtain ⟨l, hl⟩ := Option.ne_none_iff_exists'.1 (show (rowText v).getLast? ≠ none by
      rcases getLast?_rowText v with hlast | hlast <;> rw [hlast] <;> exact Option.some_ne_none _)
    rw [row_eq, getLast?_append, hl]
    rfl
  refine ⟨?_, ?_, ?_⟩
  · rw [row_eq]
    unfold rowText initText commentText
    split <;> split <;> simp [hname, htype, hinit, hcomment]
  · rw [hlast]
    rcases getLast?_rowText v with h | h <;> rw [h] <;> decide
  · rw [trimText_row h.name]
    intro heq
    have hcolon : ':' ∈ rowText v := by
      unfold rowText
      simp
    rw [heq] at hcolon
    exact absurd hcolon (by decide)

/-! ## Local variables -/

/-- The lines up to the one that opens the first block, and those from the one that closes it. -/
def linesAround (text : List Char) : Option (List (List Char) × List (List Char)) :=
  (findFirstLocalVarBlock text).map fun (startLine, endLine) =>
    ((splitLines text).take (startLine + 1), (splitLines text).drop endLine)

theorem FirstBlock.linesAround {text : List Char} {before inner after : List (List Char)} {opening closing : List Char}
    (h : FirstBlock (splitLines text) before opening inner closing after) :
    linesAround text = some (before ++ [opening], closing :: after) := by
  obtain ⟨hhead, _, htail⟩ := h.around
  unfold VarTable.linesAround
  rw [h.find, Option.map_some]
  dsimp only
  rw [hhead, htail]

/-- **Local variables** come back, and the text around them stays. -/
theorem localVars_back {text : List Char} (h : ∀ v ∈ vars, Writable v)
    (hblock : findFirstLocalVarBlock text ≠ none) : parseLocalVars (serializeLocalVars text vars) = vars ∧
      linesAround (serializeLocalVars text vars) = linesAround text := by
  obtain ⟨⟨startLine, endLine⟩, hfind⟩ := Option.ne_none_iff_exists'.1 hblock
  obtain ⟨before, opening, inner, closing, after, hfirst, _⟩ := findFirstLocalVarBlock_iff.1 hfind
  have hnew := hfirst.serialize fun v hv => isInner_row (h v hv)
  have hback : ∀ v ∈ vars, declaration (trimText (row v)) = some v := by
    intro v hv
    rw [trimText_row (h v hv).name, declaration_rowText (h v hv)]
  refine ⟨?_, by rw [hnew.linesAround, hfirst.linesAround]⟩
  rw [hnew.parse, filterMap_map]
  exact (filterMap_congr hback).trans (filterMap_some)

/-! ## Global variables -/

/-- A name that the reader takes for an end of the block. -/
def Reserved (name : List Char) : Prop := "VAR_GLOBAL".toList <+: name ∨ "END_VAR".toList <+: name

instance : DecidablePred Reserved := fun _ => inferInstanceAs (Decidable (_ ∨ _))

theorem prefix_rowText {w : List Char} (h : ' ' ∉ w) (v : GvlVariable) : w <+: rowText v ↔ w <+: v.name := by
  constructor
  · intro hw
    rcases Nat.le_total w.length v.name.length with hlen | hlen
    · exact prefix_of_prefix_length_le hw (prefix_append _ _) hlen
    · obtain ⟨tail, rfl⟩ := prefix_of_prefix_length_le (prefix_append _ _) hw hlen
      cases tail with
      | nil => rw [List.append_nil]
      | cons c tail =>
        have hc := (prefix_append_right_inj _).1 hw
        obtain ⟨rfl, -⟩ := cons_prefix_cons.1 hc
        exact absurd (by simp) h
  · exact fun hw => hw.trans (prefix_append _ _)

/-- A round over a row. -/
theorem gvlLine_row (h : Writable v) (acc : Bool × List GvlVariable) : gvlLine acc (row v) =
      if "VAR_GLOBAL".toList <+: v.name then (true, acc.2)
      else if "END_VAR".toList <+: v.name then (false, acc.2) else if acc.1 then (true, acc.2 ++ [v])
      else acc := by
  unfold gvlLine
  rw [trimText_row h.name]
  simp only [prefix_rowText (show ' ' ∉ "VAR_GLOBAL".toList by decide),
    prefix_rowText (show ' ' ∉ "END_VAR".toList by decide), declaration_rowText h, Option.toList_some]

theorem foldl_gvlLine (h : ∀ v ∈ vars, Writable v) (hplain : ∀ v ∈ vars, ¬ Reserved v.name)
    (rows : List GvlVariable) : (vars.map row).foldl gvlLine (true, rows) = (true, rows ++ vars) := by
  induction vars generalizing rows with
  | nil => rw [map_nil, foldl_nil, List.append_nil]
  | cons v vars ih =>
    have hv := hplain v mem_cons_self
    unfold Reserved at hv
    rw [not_or] at hv
    rw [map_cons, foldl_cons, gvlLine_row (h v mem_cons_self), if_neg hv.1, if_neg hv.2, if_pos rfl,
      ih (fun w hw => h w (mem_cons_of_mem _ hw)) fun w hw => hplain w (mem_cons_of_mem _ hw),
      List.append_assoc]
    rfl

/-- A round adds at most the row of the line, and none for a reserved name. -/
theorem gvlLine_length (h : Writable v) (acc : Bool × List GvlVariable) :
    (gvlLine acc (row v)).2.length ≤ acc.2.length + if Reserved v.name then 0 else 1 := by
  rw [gvlLine_row h]
  by_cases hopen : "VAR_GLOBAL".toList <+: v.name
  · rw [if_pos hopen]
    exact Nat.le_add_right _ _
  · by_cases hclose : "END_VAR".toList <+: v.name
    · rw [if_neg hopen, if_pos hclose]
      exact Nat.le_add_right _ _
    · have hplain : ¬ Reserved v.name := not_or.2 ⟨hopen, hclose⟩
      rw [if_neg hopen, if_neg hclose, if_neg hplain]
      split
      · rw [length_append, length_singleton]
      · exact Nat.le_add_right _ _

theorem foldl_gvlLine_length (h : ∀ v ∈ vars, Writable v) (acc : Bool × List GvlVariable) :
    ((vars.map row).foldl gvlLine acc).2.length ≤ acc.2.length + vars.countP (¬ Reserved ·.name) := by
  induction vars generalizing acc with
  | nil => exact Nat.le_add_right _ _
  | cons v vars ih =>
    have hround := gvlLine_length (h v mem_cons_self) acc
    have hrest := ih (fun w hw => h w (mem_cons_of_mem _ hw)) (gvlLine acc (row v))
    rw [map_cons, foldl_cons, countP_cons]
    by_cases hv : Reserved v.name
    · rw [if_pos hv] at hround
      rw [if_neg (by simpa using hv)]
      omega
    · rw [if_neg hv] at hround
      rw [if_pos (decide_eq_true hv)]
      omega

theorem splitLines_serializeGvl (h : ∀ v ∈ vars, Writable v) :
    splitLines (serializeGvl vars) = "VAR_GLOBAL".toList :: vars.map row ++ ["END_VAR".toList, []] := by
  have hlast : ∀ l ∈ "VAR_GLOBAL".toList :: vars.map row ++ ["END_VAR".toList, []],
      '\n' ∉ l ∧ l.getLast? ≠ some '\r' := by
    intro l hl
    simp only [cons_append, mem_cons, mem_append, not_mem_nil, or_false] at hl
    rcases hl with rfl | hl | rfl | rfl
    · decide
    · obtain ⟨v, hv, rfl⟩ := mem_map.1 hl
      exact ⟨(isInner_row (h v hv)).feed, (isInner_row (h v hv)).last⟩
    · decide
    · decide
  exact splitLines_intercalate (by simp) (fun l hl => (hlast l hl).1)
    (.inr ⟨rfl, fun l hl => (hlast l (dropLast_subset _ hl)).2⟩)

/-- What `parseGvl` makes of the rows between the two lines that `serializeGvl` writes. -/
theorem parseGvl_serializeGvl (h : ∀ v ∈ vars, Writable v) :
    parseGvl (serializeGvl vars) = ((vars.map row).foldl gvlLine (true, [])).2 := by
  have hopen : ∀ acc, gvlLine acc "VAR_GLOBAL".toList = (true, acc.2) := fun acc => rfl
  have hclose : ∀ acc, gvlLine (gvlLine acc "END_VAR".toList) [] = (false, acc.2) := fun acc => rfl
  unfold parseGvl
  rw [splitLines_serializeGvl h, cons_append, foldl_cons, hopen, foldl_append, foldl_cons,
    foldl_cons, foldl_nil, hclose]

/-- **The round trip** of variable lists. -/
theorem roundTrip_iff {vars : List GvlVariable} (h : ∀ v ∈ vars, Writable v) :
    (parseGvl (serializeGvl vars) = vars ∧ ∀ text, findFirstLocalVarBlock text ≠ none →
      parseLocalVars (serializeLocalVars text vars) = vars ∧
        linesAround (serializeLocalVars text vars) = linesAround text) ↔
      ∀ v ∈ vars, ¬ Reserved v.name := by
  rw [and_iff_left (fun text => localVars_back h), parseGvl_serializeGvl h]
  constructor
  · intro hback
    have hlen := foldl_gvlLine_length h (true, [])
    rw [hback, length_nil, Nat.zero_add] at hlen
    have hall := countP_eq_length.1 (Nat.le_antisymm countP_le_length hlen)
    exact fun v hv => of_decide_eq_true (hall v hv)
  · intro hplain
    rw [foldl_gvlLine h hplain, nil_append]

/-- A variable with an initial value and a comment. -/
def speed : GvlVariable := ⟨"speed".toList, "INT".toList, "3".toList, "rpm".toList⟩

theorem speed_back : (∀ v ∈ [speed], Writable v) ∧ ((parseGvl (serializeGvl [speed]) = [speed] ∧
    ∀ text, findFirstLocalVarBlock text ≠ none → parseLocalVars (serializeLocalVars text [speed]) = [speed] ∧
      linesAround (serializeLocalVars text [speed]) = linesAround text) ↔ ∀ v ∈ [speed], ¬ Reserved v.name) := by
  have hspeed : Writable speed := by
    refine ⟨⟨'s', "peed".toList, rfl, ?_, ?_⟩, ⟨'I', "NT".toList, rfl, ?_, ?_⟩, ?_, ?_, ?_, ?_, ?_⟩ <;>
      first | exact all_eq_true.1 rfl | decide
  have hall : ∀ v ∈ [speed], Writable v := by
    intro v hv
    rwa [mem_singleton.1 hv]
  exact ⟨hall, roundTrip_iff hall⟩

/-- A variable whose name begins as the last line of a block does. -/
def endVariable : GvlVariable := ⟨"END_VARIABLE".toList, "INT".toList, [], []⟩

theorem endVariable_lost : Writable endVariable ∧
    endVariable.name ∉ ["VAR".toList, "VAR_GLOBAL".toList, "END_VAR".toList] ∧
      parseGvl (serializeGvl [endVariable]) ≠ [endVariable] := by
  refine ⟨?_, by decide, by decide⟩
  refine ⟨⟨'E', "ND_VARIABLE".toList, rfl, ?_, ?_⟩, ⟨'I', "NT".toList, rfl, ?_, ?_⟩, ?_, ?_, ?_, ?_, ?_⟩ <;>
    first | exact all_eq_true.1 rfl | decide

end Audesys.VarTable
