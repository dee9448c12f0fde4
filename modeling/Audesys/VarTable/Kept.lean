import Audesys.St.Literals
import Audesys.VarTable.Declared

/-!
# `VarTable.Kept` — declarations that survive the table

Saving a table replaces the lines of a block by the rows that the line pattern recognised in them. `varLine_iff` says
which lines these are. So the declarations that are kept are those of a line `name : type;` with a type of one word, and
nothing but a comment behind the semicolon (`kept_iff`); arrays, strings with a length, and several declarations on one
line are lost.
-/

open List

namespace Audesys.VarTable

open Audesys.Hal Audesys.Lib Audesys.St

/-! ## The line pattern -/

def Blank (s : List Char) : Prop := ∀ c ∈ s, isSpace c = true

/-- What may stand behind the semicolon, with the text of the comment. -/
inductive Tail : List Char → List Char → Prop where
  | blank {w : List Char} (hw : Blank w) : Tail w []
  | comment {w body w' : List Char} (hw : Blank w) (hw' : Blank w') :
      Tail (w ++ '(' :: '*' :: (body ++ '*' :: ')' :: w')) (trimText body)

/-- The initial value in front of the semicolon. -/
inductive InitPart : List Char → List Char → Prop where
  | none : InitPart [] []
  | value {i : List Char} (hi : ';' ∉ i) : InitPart (':' :: '=' :: i) (trimText i)

/-- A line that begins with a name has the shape of a declaration. -/
structure Shape (line : List Char) (v : GvlVariable) (w₁ w₂ w₃ initPart tail : List Char) : Prop where
  line : line = v.name ++ (w₁ ++ ':' :: (w₂ ++ (v.type ++ (w₃ ++ (initPart ++ ';' :: tail)))))
  name : IsIdent v.name
  type : IsIdent v.type
  blanks : Blank w₁ ∧ Blank w₂ ∧ Blank w₃
  init : InitPart initPart v.init
  tail : Tail tail v.comment

theorem dropWhile_blank {w : List Char} (hw : Blank w) (s : List Char) :
    (w ++ s).dropWhile isSpace = s.dropWhile isSpace := dropWhile_append_of_pos hw

theorem takeWhile_blank (s : List Char) : Blank (s.takeWhile isSpace) := fun _ hc => mem_takeWhile_imp hc

theorem rdropWhile_blank (s : List Char) {w : List Char} (hw : Blank w) :
    (s ++ w).rdropWhile isSpace = s.rdropWhile isSpace := by
  unfold List.rdropWhile
  rw [reverse_append, dropWhile_append_of_pos fun c hc => hw c (mem_reverse.1 hc)]

theorem ident_eq_some {s name rest : List Char} :
    ident s = some (name, rest) ↔ s = name ++ rest ∧ IsIdent name ∧ ∀ c ∈ rest.head?, isIdentPart c = false := by
  constructor
  · intro h
    cases s with
    | nil => cases h
    | cons c s =>
      rw [ident] at h
      by_cases hc : isIdentStart c = true
      · rw [if_pos hc, Option.some.injEq, Prod.mk.injEq] at h
        obtain ⟨rfl, rfl⟩ := h
        refine ⟨?_, ⟨c, _, rfl, hc, fun d hd => mem_takeWhile_imp hd⟩, ?_⟩
        · rw [cons_append, takeWhile_append_dropWhile]
        · intro d hd
          have hstop := head?_dropWhile_not isIdentPart s
          rw [Option.mem_def.1 hd] at hstop
          exact hstop
      · rw [if_neg hc] at h
        cases h
  · rintro ⟨rfl, hname, hstop⟩
    cases rest with
    | nil =>
      obtain ⟨c, tail, rfl, hc, htail⟩ := hname
      rw [List.append_nil, ident, if_pos hc, takeWhile_eq_self_iff.2 htail, dropWhile_eq_nil_iff.2 htail]
    | cons d rest => exact ident_append hname (hstop d rfl) rest

theorem lineComment_iff {s comment : List Char} : lineComment s = some comment ↔ Tail s comment := by
  have hopen : isSpace '(' = false := by decide
  have hclose : isSpace ')' = false := by decide
  constructor
  · intro h
    unfold lineComment at h
    split at h
    · rename_i hblank
      obtain rfl := Option.some.inj h
      exact .blank (dropWhile_eq_nil_iff.1 hblank)
    · rename_i rest hrest
      dsimp only at h
      split at h
      · rename_i hsuffix
        obtain rfl := Option.some.inj h
        obtain ⟨body, hbody⟩ := hsuffix
        have hs : s = s.takeWhile isSpace ++ '(' :: '*' :: (body ++ '*' :: ')' :: rest.rtakeWhile isSpace) := by
          have hsplit : rest = body ++ ['*', ')'] ++ rest.rtakeWhile isSpace := by
            rw [hbody]
            exact rdropWhile_append_rtakeWhile.symm
          calc s = s.takeWhile isSpace ++ s.dropWhile isSpace := takeWhile_append_dropWhile.symm
            _ = s.takeWhile isSpace ++ '(' :: '*' :: rest := by rw [hrest]
            _ = _ := by
              conv_lhs => rw [hsplit]
              simp
        have htake : (rest.rdropWhile isSpace).take ((rest.rdropWhile isSpace).length - 2) = body := by
          rw [← hbody]
          exact take_left' (by simp)
        rw [htake, hs]
        exact .comment (takeWhile_blank s) fun c hc => mem_rtakeWhile_imp hc
      · cases h
    · cases h
  · rintro (hw | ⟨hw, hw'⟩)
    · unfold lineComment
      rw [dropWhile_eq_nil_iff.2 hw]
    · rename_i w body w'
      have hrest : (body ++ '*' :: ')' :: w').rdropWhile isSpace = body ++ "*)".toList := by
        rw [show body ++ '*' :: ')' :: w' = body ++ ['*'] ++ [')'] ++ w' by simp, rdropWhile_blank _ hw',
          rdropWhile_concat_neg _ _ _ (by rw [hclose]; exact Bool.false_ne_true)]
        simp
      have hbody : (body ++ "*)".toList).take ((body ++ "*)".toList).length - 2) = body := take_left' (by simp)
      have hsuffix : ['*', ')'] <:+ body ++ "*)".toList := suffix_append body _
      unfold lineComment
      rw [dropWhile_blank hw, dropWhile_cons_of_neg (by rw [hopen]; exact Bool.false_ne_true)]
      simp only [hrest, if_pos hsuffix, hbody]

/-- Blanks go on up to a character that is none. -/
theorem dropWhile_eq {w s : List Char} (hw : Blank w) (hs : ∀ c ∈ s.head?, isSpace c = false) :
    (w ++ s).dropWhile isSpace = s := by
  rw [dropWhile_blank hw]
  cases s with
  | nil => rfl
  | cons c s => exact dropWhile_cons_of_neg (Bool.eq_false_iff.1 (hs c rfl))

theorem eq_append_of_dropWhile {s rest : List Char} (h : s.dropWhile isSpace = rest) :
    s = s.takeWhile isSpace ++ rest := by
  rw [← h, takeWhile_append_dropWhile]

/-- The part of `varLine` behind the type. -/
def initialValue (s : List Char) : List Char × List Char :=
  match s.dropWhile isSpace with
  | ':' :: '=' :: s => (trimText (s.takeWhile (· != ';')), s.dropWhile (· != ';'))
  | s => ([], s)

theorem initialValue_iff {s init tail : List Char} : initialValue s = (init, ';' :: tail) ↔
    ∃ w initPart, s = w ++ (initPart ++ ';' :: tail) ∧ Blank w ∧ InitPart initPart init := by
  have hcolon : ∀ rest : List Char, ∀ c ∈ (':' :: rest).head?, isSpace c = false := by
    rintro rest c hc
    obtain rfl := Option.some.inj hc
    decide
  have hsemicolon : ∀ rest : List Char, ∀ c ∈ (';' :: rest).head?, isSpace c = false := by
    rintro rest c hc
    obtain rfl := Option.some.inj hc
    decide
  constructor
  · intro h
    unfold initialValue at h
    split at h
    · rename_i i hassign
      obtain ⟨rfl, hrest⟩ := Prod.mk.inj h
      have hi : i = i.takeWhile (· != ';') ++ ';' :: tail := by
        rw [← hrest, takeWhile_append_dropWhile]
      have hnone : ';' ∉ i.takeWhile (· != ';') := fun hmem => by simpa using mem_takeWhile_imp hmem
      refine ⟨_, _, ?_, takeWhile_blank s, .value hnone⟩
      rw [cons_append, cons_append, ← hi]
      exact eq_append_of_dropWhile hassign
    · obtain ⟨rfl, hrest⟩ := Prod.mk.inj h
      exact ⟨_, [], eq_append_of_dropWhile hrest, takeWhile_blank s, .none⟩
  · rintro ⟨w, initPart, rfl, hw, _ | hi⟩
    · unfold initialValue
      rw [nil_append, dropWhile_eq hw (hsemicolon tail)]
      rfl
    · rename_i i
      unfold initialValue
      rw [cons_append, cons_append, dropWhile_eq hw (hcolon _)]
      simp only [upTo_semicolon hi tail]

theorem IsIdent.head {s : List Char} (h : IsIdent s) (rest : List Char) :
    ∀ c ∈ (s ++ rest).head?, isSpace c = false := by
  obtain ⟨c, tail, rfl, hc, _⟩ := h
  intro d hd
  obtain rfl := Option.some.inj hd
  exact isSpace_of_isIdentPart (isIdentPart_of_isIdentStart hc)

/-- A name ends where blanks or something else follows. -/
theorem head_blank {w s : List Char} (hw : Blank w) (hs : ∀ c ∈ s.head?, isIdentPart c = false) :
    ∀ c ∈ (w ++ s).head?, isIdentPart c = false := by
  cases w with
  | nil => exact hs
  | cons d w =>
    intro c hc
    obtain rfl := Option.some.inj hc
    by_contra hpart
    have hspace := hw d mem_cons_self
    rw [isSpace_of_isIdentPart (Bool.not_eq_false _ ▸ hpart)] at hspace
    cases hspace

theorem InitPart.head {initPart init : List Char} (h : InitPart initPart init) (tail : List Char) :
    ∀ c ∈ (initPart ++ ';' :: tail).head?, isIdentPart c = false := by
  intro c hc
  rcases h with _ | _
  · obtain rfl := Option.some.inj hc
    decide
  · obtain rfl := Option.some.inj hc
    decide

theorem varLine_eq (line : List Char) : varLine line =
    (ident (line.dropWhile isSpace)).bind fun (name, s) =>
      match s.dropWhile isSpace with
      | ':' :: s => (ident (s.dropWhile isSpace)).bind fun (type, s) =>
        match (initialValue s).2 with
        | ';' :: tail => (lineComment tail).map fun comment => ⟨name, type, (initialValue s).1, comment⟩
        | _ => none
      | _ => none := rfl

/-- **The line pattern** takes the lines that have the shape of a declaration. -/
theorem varLine_iff {line : List Char} (hfirst : ∀ c ∈ line.head?, isSpace c = false) {v : GvlVariable} :
    varLine line = some v ↔ ∃ w₁ w₂ w₃ initPart tail, Shape line v w₁ w₂ w₃ initPart tail := by
  have hline : line.dropWhile isSpace = line := dropWhile_eq (w := []) nofun hfirst
  rw [varLine_eq, hline]
  constructor
  · intro h
    obtain ⟨⟨name, s⟩, hident, hrest⟩ := Option.bind_eq_some_iff.1 h
    clear h
    obtain ⟨rfl, hname, -⟩ := ident_eq_some.1 hident
    dsimp only at hrest
    split at hrest
    · rename_i s₁ hcolon
      obtain ⟨⟨type, s₂⟩, hident', hmore⟩ := Option.bind_eq_some_iff.1 hrest
      clear hrest
      obtain ⟨hs₂, htype, -⟩ := ident_eq_some.1 hident'
      dsimp only at hmore
      split at hmore
      · rename_i tail hsemicolon
        obtain ⟨comment, hcomment, rfl⟩ := Option.map_eq_some_iff.1 hmore
        obtain ⟨w₃, initPart, rfl, hw₃, hinit⟩ := initialValue_iff.1 (Prod.ext rfl hsemicolon)
        refine ⟨s.takeWhile isSpace, s₁.takeWhile isSpace, w₃, initPart, tail, ?_, hname, htype,
          ⟨takeWhile_blank s, takeWhile_blank s₁, hw₃⟩, hinit, lineComment_iff.1 hcomment⟩
        rw [← eq_append_of_dropWhile hs₂, ← eq_append_of_dropWhile hcolon]
      · cases hmore
    · cases hrest
  · rintro ⟨w₁, w₂, w₃, initPart, tail, rfl, hname, htype, ⟨hw₁, hw₂, hw₃⟩, hinit, htail⟩
    have hcolon : ∀ rest : List Char, ∀ c ∈ (':' :: rest).head?, isSpace c = false ∧ isIdentPart c = false := by
      rintro rest c hc
      obtain rfl := Option.some.inj hc
      decide
    have hident (rest : List Char) : ident (v.name ++ (w₁ ++ ':' :: rest)) = some (v.name, w₁ ++ ':' :: rest) :=
      ident_eq_some.2 ⟨rfl, hname, head_blank hw₁ fun c hc => (hcolon rest c hc).2⟩
    have hident' : ident (v.type ++ (w₃ ++ (initPart ++ ';' :: tail))) =
        some (v.type, w₃ ++ (initPart ++ ';' :: tail)) :=
      ident_eq_some.2 ⟨rfl, htype, head_blank hw₃ (hinit.head tail)⟩
    have hdrop (rest : List Char) : (w₁ ++ ':' :: rest).dropWhile isSpace = ':' :: rest :=
      dropWhile_eq hw₁ fun c hc => (hcolon rest c hc).1
    have hdrop' : (w₂ ++ (v.type ++ (w₃ ++ (initPart ++ ';' :: tail)))).dropWhile isSpace =
        v.type ++ (w₃ ++ (initPart ++ ';' :: tail)) := dropWhile_eq hw₂ (htype.head _)
    have hvalue : initialValue (w₃ ++ (initPart ++ ';' :: tail)) = (v.init, ';' :: tail) :=
      initialValue_iff.2 ⟨w₃, initPart, rfl, hw₃, hinit⟩
    simp only [hident, Option.bind_some, hdrop, hdrop', hident', hvalue, lineComment_iff.2 htail, Option.map_some]

/-! ## Rows of lines -/

theorem head_trimText (s : List Char) : ∀ c ∈ (trimText s).head?, isSpace c = false := by
  intro c hc
  have hprefix : trimText s <+: s.dropWhile isSpace := rdropWhile_prefix isSpace _
  obtain ⟨tail, htail⟩ := head?_eq_some_iff.1 (Option.mem_def.1 hc)
  rw [htail] at hprefix
  obtain ⟨rest, hrest⟩ := hprefix
  have hstop := head?_dropWhile_not isSpace s
  rw [← hrest] at hstop
  exact hstop

theorem trimText_trimText (s : List Char) : trimText (trimText s) = trimText s := by
  have hfront : (trimText s).dropWhile isSpace = trimText s :=
    dropWhile_eq (fun _ hc => absurd hc not_mem_nil) (head_trimText s)
  calc trimText (trimText s) = (trimText s).rdropWhile isSpace := by rw [trimText, hfront]
    _ = trimText s := rdropWhile_idempotent isSpace _

theorem trimText_subset (s : List Char) : trimText s ⊆ s :=
  fun _ hc => (dropWhile_sublist isSpace).subset ((List.rdropWhile_prefix isSpace _).subset hc)

theorem InitPart.spec {initPart init : List Char} (h : InitPart initPart init) :
    ';' ∉ init ∧ init ⊆ initPart ∧ trimText init = init := by
  rcases h with _ | hi
  · exact ⟨not_mem_nil, nil_subset _, rfl⟩
  · rename_i i
    refine ⟨fun hmem => hi (trimText_subset i hmem), fun c hc => ?_, trimText_trimText i⟩
    exact mem_cons_of_mem _ (mem_cons_of_mem _ (trimText_subset i hc))

theorem Tail.spec {tail comment : List Char} (h : Tail tail comment) : comment ⊆ tail ∧ trimText comment = comment := by
  rcases h with hw | ⟨hw, hw'⟩
  · exact ⟨nil_subset _, rfl⟩
  · rename_i w body w'
    refine ⟨fun c hc => ?_, trimText_trimText body⟩
    have hbody := trimText_subset body hc
    simp [hbody]

/-- **What the pattern takes** can be written. -/
theorem Shape.writable {line : List Char} {v : GvlVariable} {w₁ w₂ w₃ initPart tail : List Char}
    (h : Shape line v w₁ w₂ w₃ initPart tail) (hfeed : '\n' ∉ line) : Writable v := by
  have hparts : initPart ⊆ line ∧ tail ⊆ line := by
    rw [h.line]
    constructor <;> intro c hc <;> simp [hc]
  exact {
    name := h.name
    type := h.type
    init_semicolon := h.init.spec.1
    init_feed := fun hmem => hfeed (hparts.1 (h.init.spec.2.1 hmem))
    init_trim := h.init.spec.2.2
    comment_feed := fun hmem => hfeed (hparts.2 (h.tail.spec.1 hmem))
    comment_trim := h.tail.spec.2 }

/-- The trimmed line has the shape of a declaration. -/
theorem declaration_iff {raw : List Char} {v : GvlVariable} :
    declaration (trimText raw) = some v ↔ ∃ w₁ w₂ w₃ initPart tail, Shape (trimText raw) v w₁ w₂ w₃ initPart tail := by
  have hshown : (∃ w₁ w₂ w₃ initPart tail, Shape (trimText raw) v w₁ w₂ w₃ initPart tail) →
      ¬ (trimText raw = [] ∨ ['(', '*'] <+: trimText raw) := by
    rintro ⟨w₁, w₂, w₃, initPart, tail, h⟩
    obtain ⟨c, name, hname, hc, -⟩ := h.name
    rw [h.line, hname, cons_append]
    rintro (hnil | hopen)
    · cases hnil
    · obtain ⟨rfl, -⟩ := cons_prefix_cons.1 hopen
      exact absurd hc (by decide)
  unfold declaration
  constructor
  · intro h
    split at h
    · cases h
    · exact (varLine_iff (head_trimText raw)).1 h
  · intro h
    rw [if_neg (hshown h)]
    exact (varLine_iff (head_trimText raw)).2 h

theorem writable_of_declaration {raw : List Char} (hfeed : '\n' ∉ raw) {v : GvlVariable}
    (h : declaration (trimText raw) = some v) : Writable v := by
  obtain ⟨w₁, w₂, w₃, initPart, tail, hshape⟩ := declaration_iff.1 h
  exact hshape.writable fun hmem => hfeed (trimText_subset raw hmem)

variable [Target] [CharTable] [F64Math]

/-- The line is `name : type;` with a type of one word, and nothing or a text from `(*` to `*)` behind it, which is read
as more of the variables. -/
def Plain (raw : List Char) (vars : List Variable) : Prop :=
  ∃ r w₁ w₂ w₃ initPart tail v more, Shape (trimText raw) r w₁ w₂ w₃ initPart tail ∧ Reads r v ∧
    Accepts (commentText r.comment) more ∧ (∀ w ∈ more, v.name ≠ w.name) ∧ vars = v :: more

/-- A row that stands for a line declares what the line plainly does. -/
theorem accepts_row {raw : List Char} (hfeed : '\n' ∉ raw) {vars : List Variable} :
    (∃ r, declaration (trimText raw) = some r ∧ Accepts (row r) vars) ↔ Plain raw vars := by
  constructor
  · rintro ⟨r, hr, haccepts⟩
    obtain ⟨w₁, w₂, w₃, initPart, tail, hshape⟩ := declaration_iff.1 hr
    obtain ⟨v, more, hreads, hmore, hfresh, rfl⟩ :=
      (accepts_row_iff (writable_of_declaration hfeed hr)).1 haccepts
    exact ⟨r, w₁, w₂, w₃, initPart, tail, v, more, hshape, hreads, hmore, hfresh, rfl⟩
  · rintro ⟨r, w₁, w₂, w₃, initPart, tail, v, more, hshape, hreads, hmore, hfresh, rfl⟩
    have hr : declaration (trimText raw) = some r := declaration_iff.2 ⟨_, _, _, _, _, hshape⟩
    exact ⟨r, hr, (accepts_row_iff (writable_of_declaration hfeed hr)).2 ⟨v, more, hreads, hmore, hfresh, rfl⟩⟩

/-! ## The lines of a block -/

/-- The lines inside the first block. -/
def localLines (text : List Char) : List (List Char) :=
  match findFirstLocalVarBlock text with
  | none => []
  | some (startLine, endLine) => ((splitLines text).take endLine).drop (startLine + 1)

/-- A round of the pass over lines: whether the line is inside a block, and the lines inside so far. -/
def blockLine (opens closes : List Char → Bool) (acc : Bool × List (List Char)) (raw : List Char) :
    Bool × List (List Char) :=
  if opens (trimText raw) then (true, acc.2)
  else if closes (trimText raw) then (false, acc.2)
  else if acc.1 then (true, acc.2 ++ [raw])
  else acc

def blockLines (opens closes : List Char → Bool) (text : List Char) : List (List Char) :=
  ((splitLines text).foldl (blockLine opens closes) (false, [])).2

/-- The first word of a line. -/
def firstWord (line : List Char) : List Char := line.takeWhile isIdentPart

/-- The lines inside the blocks of global variables. -/
def globalLines (text : List Char) : List (List Char) :=
  blockLines (firstWord · = "VAR_GLOBAL".toList) (firstWord · = "END_VAR".toList) text

/-- The lines that `parseGvl` takes for those inside. -/
def scannedLines (text : List Char) : List (List Char) :=
  blockLines ("VAR_GLOBAL".toList <+: ·) ("END_VAR".toList <+: ·) text

/-- Each variable that a line of the first block declares is declared by one after saving. -/
def LocalKept (text : List Char) : Prop :=
  ∀ line ∈ localLines text, ∀ v, Declares line v →
    ∃ line' ∈ localLines (serializeLocalVars text (parseLocalVars text)), Declares line' v

/-- Likewise for global variables. -/
def GlobalKept (text : List Char) : Prop :=
  ∀ line ∈ globalLines text, ∀ v, Declares line v →
    ∃ line' ∈ globalLines (serializeGvl (parseGvl text)), Declares line' v

omit [Target] [CharTable] [F64Math] in
theorem FirstBlock.localLines {text : List Char} {before inner after : List (List Char)} {opening closing : List Char}
    (h : FirstBlock (splitLines text) before opening inner closing after) : localLines text = inner := by
  unfold VarTable.localLines
  rw [h.find]
  dsimp only
  rw [h.around.2.1]
  exact drop_left' (by rw [length_append, length_singleton])

omit [Target] [CharTable] [F64Math] in
/-- After saving, the lines inside are the rows. -/
theorem localLines_serialize (text : List Char) :
    (∀ line ∈ localLines text, '\n' ∉ line) ∧
      localLines (serializeLocalVars text (parseLocalVars text)) =
        ((localLines text).filterMap fun raw => declaration (trimText raw)).map row := by
  cases hfind : findFirstLocalVarBlock text with
  | none =>
    have hnone : localLines text = [] := by
      unfold localLines
      rw [hfind]
    have hsame : serializeLocalVars text (parseLocalVars text) = text := by
      unfold serializeLocalVars
      rw [hfind]
    rw [hsame, hnone]
    exact ⟨fun _ h => absurd h not_mem_nil, rfl⟩
  | some block =>
    obtain ⟨startLine, endLine⟩ := block
    obtain ⟨before, opening, inner, closing, after, hfirst, -⟩ := findFirstLocalVarBlock_iff.1 hfind
    have hfeed : ∀ line ∈ inner, '\n' ∉ line := by
      intro line hline
      have hmem : line ∈ splitLines text := by
        rw [hfirst.lines]
        simp [hline]
      exact feed_not_mem_splitLines hmem
    have hrows : ∀ v ∈ parseLocalVars text, IsInner (row v) := by
      rw [hfirst.parse]
      intro v hv
      obtain ⟨raw, hraw, hdecl⟩ := mem_filterMap.1 hv
      exact isInner_row (writable_of_declaration (hfeed raw hraw) hdecl)
    rw [hfirst.localLines, (hfirst.serialize hrows).localLines, hfirst.parse]
    exact ⟨hfeed, rfl⟩

section
variable {opens closes : List Char → Bool}

omit [Target] [CharTable] [F64Math] in
/-- The lines inside the blocks are lines, and none opens or closes one. -/
theorem mem_foldl_blockLine {ls : List (List Char)} {acc : Bool × List (List Char)} {line : List Char}
    (h : line ∈ (ls.foldl (blockLine opens closes) acc).2) :
    line ∈ acc.2 ∨ (line ∈ ls ∧ opens (trimText line) = false ∧ closes (trimText line) = false) := by
  induction ls generalizing acc with
  | nil => exact .inl h
  | cons raw ls ih =>
    rcases ih h with hin | ⟨hin, hplain⟩
    · unfold blockLine at hin
      split at hin
      · exact .inl hin
      · rename_i hopens
        split at hin
        · exact .inl hin
        · rename_i hcloses
          split at hin
          · rcases mem_append.1 hin with hin | hin
            · exact .inl hin
            · rw [mem_singleton.1 hin]
              exact .inr ⟨mem_cons_self, Bool.eq_false_iff.2 hopens, Bool.eq_false_iff.2 hcloses⟩
          · exact .inl hin
    · exact .inr ⟨mem_cons_of_mem _ hin, hplain⟩

omit [Target] [CharTable] [F64Math] in
/-- Lines that open and close no block. -/
theorem foldl_blockLine {ls : List (List Char)}
    (h : ∀ line ∈ ls, opens (trimText line) = false ∧ closes (trimText line) = false) (lines : List (List Char)) :
    ls.foldl (blockLine opens closes) (true, lines) = (true, lines ++ ls) := by
  induction ls generalizing lines with
  | nil => rw [foldl_nil, List.append_nil]
  | cons raw ls ih =>
    obtain ⟨hopens, hcloses⟩ := h raw mem_cons_self
    have hround : blockLine opens closes (true, lines) raw = (true, lines ++ [raw]) := by
      unfold blockLine
      rw [hopens, hcloses]
      rfl
    rw [foldl_cons, hround, ih fun line hline => h line (mem_cons_of_mem _ hline), List.append_assoc]
    rfl

end

omit [Target] [CharTable] [F64Math] in
/-- `parseGvl` reads the lines that it takes for those inside. -/
theorem parseGvl_eq (text : List Char) :
    parseGvl text = (scannedLines text).filterMap fun raw => declaration (trimText raw) := by
  have hround : ∀ (inside : Bool) (lines : List (List Char)) (raw : List Char),
      gvlLine (inside, lines.filterMap fun raw => declaration (trimText raw)) raw =
        ((blockLine ("VAR_GLOBAL".toList <+: ·) ("END_VAR".toList <+: ·) (inside, lines) raw).1,
          (blockLine ("VAR_GLOBAL".toList <+: ·) ("END_VAR".toList <+: ·) (inside, lines) raw).2.filterMap
            fun raw => declaration (trimText raw)) := by
    intro inside lines raw
    unfold gvlLine blockLine
    simp only [decide_eq_true_eq]
    split
    · rfl
    · split
      · rfl
      · split
        · rw [filterMap_append]
          cases hdecl : declaration (trimText raw) <;> simp [hdecl]
        · rfl
  have hrun : ∀ (ls : List (List Char)) (inside : Bool) (lines : List (List Char)),
      (ls.foldl gvlLine (inside, lines.filterMap fun raw => declaration (trimText raw))).2 =
        (ls.foldl (blockLine ("VAR_GLOBAL".toList <+: ·) ("END_VAR".toList <+: ·)) (inside, lines)).2.filterMap
          fun raw => declaration (trimText raw) := by
    intro ls
    induction ls with
    | nil => exact fun _ _ => rfl
    | cons raw ls ih =>
      intro inside lines
      rw [foldl_cons, foldl_cons, hround, ih]
  exact hrun (splitLines text) false []

omit [Target] [CharTable] [F64Math] in
/-- After saving, the lines inside are the rows. -/
theorem globalLines_serialize (text : List Char) :
    (∀ line ∈ scannedLines text, '\n' ∉ line) ∧
      globalLines (serializeGvl (parseGvl text)) =
        ((scannedLines text).filterMap fun raw => declaration (trimText raw)).map row := by
  have hscanned : ∀ line ∈ scannedLines text, '\n' ∉ line ∧ ¬ "VAR_GLOBAL".toList <+: trimText line ∧
      ¬ "END_VAR".toList <+: trimText line := by
    intro line hline
    rcases mem_foldl_blockLine hline with hnil | ⟨hin, hopens, hcloses⟩
    · cases hnil
    · exact ⟨feed_not_mem_splitLines hin, of_decide_eq_false hopens, of_decide_eq_false hcloses⟩
  have hrows : ∀ v ∈ parseGvl text, Writable v ∧ ¬ Reserved v.name := by
    rw [parseGvl_eq]
    intro v hv
    obtain ⟨raw, hraw, hdecl⟩ := mem_filterMap.1 hv
    obtain ⟨hfeed, hopen, hclose⟩ := hscanned raw hraw
    obtain ⟨w₁, w₂, w₃, initPart, tail, hshape⟩ := declaration_iff.1 hdecl
    have hname : v.name <+: trimText raw := by
      rw [hshape.line]
      exact prefix_append _ _
    refine ⟨writable_of_declaration hfeed hdecl, ?_⟩
    rintro (hreserved | hreserved)
    · exact hopen (hreserved.trans hname)
    · exact hclose (hreserved.trans hname)
  have hplain : ∀ line ∈ (parseGvl text).map row, decide (firstWord (trimText line) = "VAR_GLOBAL".toList) = false ∧
      decide (firstWord (trimText line) = "END_VAR".toList) = false := by
    intro line hline
    obtain ⟨v, hv, rfl⟩ := mem_map.1 hline
    obtain ⟨hwritable, hreserved⟩ := hrows v hv
    have hword : firstWord (trimText (row v)) = v.name := by
      rw [trimText_row hwritable.name]
      unfold firstWord rowText
      rw [takeWhile_append_of_pos hwritable.name.isIdentPart, takeWhile_cons_of_neg (by decide),
        List.append_nil]
    rw [hword]
    constructor
    · exact decide_eq_false fun heq => hreserved (.inl (heq ▸ prefix_rfl))
    · exact decide_eq_false fun heq => hreserved (.inr (heq ▸ prefix_rfl))
  refine ⟨fun line hline => (hscanned line hline).1, ?_⟩
  rw [← parseGvl_eq]
  unfold globalLines blockLines
  rw [splitLines_serializeGvl fun v hv => (hrows v hv).1, cons_append, foldl_cons, foldl_append]
  have hopen : blockLine (firstWord · = "VAR_GLOBAL".toList) (firstWord · = "END_VAR".toList) (false, [])
      "VAR_GLOBAL".toList = (true, []) := by decide
  have hclose (lines : List (List Char)) : ["END_VAR".toList, []].foldl
      (blockLine (firstWord · = "VAR_GLOBAL".toList) (firstWord · = "END_VAR".toList)) (true, lines) =
        (false, lines) := rfl
  rw [hopen, foldl_blockLine hplain, hclose, nil_append]

/-- What is declared after saving was declared plainly before. -/
theorem declares_rows {lines : List (List Char)} (hfeed : ∀ line ∈ lines, '\n' ∉ line) {v : Variable} :
    (∃ line ∈ (lines.filterMap fun raw => declaration (trimText raw)).map row, Declares line v) ↔
      ∃ line ∈ lines, ∃ vars, Plain line vars ∧ v ∈ vars := by
  constructor
  · rintro ⟨_, hline, vars, haccepts, hv⟩
    obtain ⟨r, hr, rfl⟩ := mem_map.1 hline
    obtain ⟨raw, hraw, hdecl⟩ := mem_filterMap.1 hr
    exact ⟨raw, hraw, vars, (accepts_row (hfeed raw hraw)).1 ⟨r, hdecl, haccepts⟩, hv⟩
  · rintro ⟨raw, hraw, vars, hplain, hv⟩
    obtain ⟨r, hdecl, haccepts⟩ := (accepts_row (hfeed raw hraw)).2 hplain
    exact ⟨row r, mem_map_of_mem (mem_filterMap.2 ⟨raw, hraw, hdecl⟩), vars, haccepts, hv⟩

end Audesys.VarTable

/-! ## An array -/

namespace Audesys.VarTable

open Audesys.Hal Audesys.St

local instance keptTarget : Target := fractions

local instance keptMath : F64Math := fractionMath

local instance keptTable : CharTable := asciiTable

def arrayLine : List Char := "    a : ARRAY[1..3] OF INT;".toList

def arrayText : List Char := "VAR\n".toList ++ arrayLine ++ "\nEND_VAR".toList

def arrayTokens : List TokenInfo :=
  [⟨.identifier "a", ⟨1, 5⟩⟩, ⟨.colon, ⟨1, 7⟩⟩, ⟨.array, ⟨1, 9⟩⟩, ⟨.lbracket, ⟨1, 14⟩⟩, ⟨.integerLiteral 1, ⟨1, 15⟩⟩,
    ⟨.dotDot, ⟨1, 16⟩⟩, ⟨.integerLiteral 3, ⟨1, 18⟩⟩, ⟨.rbracket, ⟨1, 19⟩⟩, ⟨.of_, ⟨1, 21⟩⟩, ⟨.int, ⟨1, 24⟩⟩,
    ⟨.semicolon, ⟨1, 27⟩⟩]

end Audesys.VarTable
