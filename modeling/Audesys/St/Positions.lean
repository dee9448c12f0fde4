import Audesys.St.Lexer
import Mathlib.Data.List.Infix
import Mathlib.Data.List.TakeWhile

/-!
# `St.Positions` — where the tokens stand in the text

The line and the column of a token are those of its first character, so a position names one place of the text
(`after_injective`). An integer literal's token stands where its digits are, and carries what `parse::<i64>` makes of
them (`tokenize_literal`).
-/

open List

namespace Audesys.St

open Audesys.Hal

variable {cs : List Char}

/-! ## Positions -/

/-- The position behind some characters. -/
def Span.after (s : Span) (cs : List Char) : Span :=
  cs.foldl (fun s c => if c = '\n' then ⟨s.line + 1, 1⟩ else ⟨s.line, s.col + 1⟩) s

theorem after_append (s : Span) (cs ds : List Char) : s.after (cs ++ ds) = (s.after cs).after ds :=
  foldl_append

theorem after_cons (s : Span) (c : Char) (cs : List Char) :
    s.after (c :: cs) = (if c = '\n' then ⟨s.line + 1, 1⟩ else ⟨s.line, s.col + 1⟩ : Span).after cs := rfl

/-- On one line the column advances. -/
theorem after_line (h : ∀ c ∈ cs, c ≠ '\n') (s : Span) : s.after cs = ⟨s.line, s.col + cs.length⟩ := by
  induction cs generalizing s with
  | nil => rfl
  | cons c cs ih =>
    rw [after_cons, if_neg (h c mem_cons_self), ih (fun d hd => h d (mem_cons_of_mem _ hd)),
      length_cons]
    simp only [Span.mk.injEq, true_and]
    omega

/-- Positions only advance. -/
theorem after_le (s : Span) (cs : List Char) :
    s.line < (s.after cs).line ∨ s.line = (s.after cs).line ∧ s.col ≤ (s.after cs).col := by
  induction cs generalizing s with
  | nil => exact .inr ⟨rfl, Nat.le_refl _⟩
  | cons c cs ih =>
    rw [after_cons]
    split
    · have := ih ⟨s.line + 1, 1⟩
      dsimp only at this
      omega
    · have := ih ⟨s.line, s.col + 1⟩
      dsimp only at this
      omega

theorem after_ne (s : Span) (c : Char) (cs : List Char) : s.after (c :: cs) ≠ s := by
  intro h
  rw [after_cons] at h
  split at h
  · have hle := after_le ⟨s.line + 1, 1⟩ cs
    rw [h] at hle
    dsimp only at hle
    omega
  · have hle := after_le ⟨s.line, s.col + 1⟩ cs
    rw [h] at hle
    dsimp only at hle
    omega

/-- **A position names one place** of a text. -/
theorem after_injective {s : Span} {pre pre' post post' : List Char} (htext : pre ++ post = pre' ++ post')
    (h : s.after pre = s.after pre') : pre = pre' := by
  obtain ⟨mid, rfl, _⟩ | ⟨mid, rfl, _⟩ := append_eq_append_iff.1 htext
  · cases mid with
    | nil => rw [List.append_nil]
    | cons c mid =>
      rw [after_append] at h
      exact absurd h.symm (after_ne _ c mid)
  · cases mid with
    | nil => rw [List.append_nil]
    | cons c mid =>
      rw [after_append] at h
      exact absurd h (after_ne _ c mid)

/-! ## Digit strings -/

/-- The digits `digits` stand in the text at the position `span`, and no digit follows them. -/
structure Written (text : List Char) (span : Span) (digits : List Char) : Prop where
  ne_nil : digits ≠ []
  isDigit : ∀ c ∈ digits, c.isDigit = true
  place : ∃ pre post, text = pre ++ digits ++ post ∧ (⟨1, 1⟩ : Span).after pre = span ∧
    ∀ c ∈ post.head?, c.isDigit = false

/-- Two digit strings in front of no digit are the same if the texts are. -/
theorem digits_unique {ds ds' post post' : List Char} (hds : ∀ c ∈ ds, c.isDigit = true)
    (hds' : ∀ c ∈ ds', c.isDigit = true) (hpost : ∀ c ∈ post.head?, c.isDigit = false)
    (hpost' : ∀ c ∈ post'.head?, c.isDigit = false) (h : ds ++ post = ds' ++ post') : ds = ds' := by
  have htake {ds post : List Char} (hds : ∀ c ∈ ds, c.isDigit = true) (hpost : ∀ c ∈ post.head?, c.isDigit = false) :
      (ds ++ post).takeWhile Char.isDigit = ds := by
    rw [takeWhile_append_of_pos hds]
    cases post with
    | nil => simp
    | cons c post => rw [takeWhile_cons_of_neg (by simp [hpost c rfl]), List.append_nil]
  rw [← htake hds hpost, h, htake hds' hpost']

theorem Written.unique {text ds ds' : List Char} {span : Span} (h : Written text span ds) (h' : Written text span ds') :
    ds = ds' := by
  obtain ⟨pre, post, htext, hspan, hpost⟩ := h.place
  obtain ⟨pre', post', htext', hspan', hpost'⟩ := h'.place
  rw [htext, List.append_assoc, List.append_assoc] at htext'
  obtain rfl := after_injective htext' (hspan.trans hspan'.symm)
  exact digits_unique h.isDigit h'.isDigit hpost hpost' (append_cancel_left htext')

/-! ## One round -/

/-- A cursor behind some characters of the text. -/
def Behind (cs : List Char) (s : Span) (cursor : Cursor) : Prop :=
  ∃ used, cs = used ++ cursor.rest ∧ (⟨cursor.line, cursor.col⟩ : Span) = s.after used

theorem Behind.prepend {s : Span} {cursor : Cursor} (front : List Char)
    (h : Behind cs (s.after front) cursor) : Behind (front ++ cs) s cursor := by
  obtain ⟨used, rfl, hspan⟩ := h
  exact ⟨front ++ used, (List.append_assoc ..).symm, hspan.trans (after_append ..).symm⟩

theorem behind_skipComment (depth : Nat) (cs : List Char) (line col : Nat) :
    Behind cs ⟨line, col⟩ (skipComment depth cs line col) := by
  fun_induction skipComment depth cs line col with
  | case1 cs line col => exact ⟨[], rfl, rfl⟩
  | case2 depth line col => exact ⟨[], rfl, rfl⟩
  | case3 depth cs line col ih => exact ih.prepend ['(', '*']
  | case4 depth cs line col ih => exact ih.prepend ['*', ')']
  | case5 depth cs line col _ _ ih => exact ih.prepend ['\n']
  | case6 depth c cs line col _ _ hc ih =>
    refine Behind.prepend (s := ⟨line, col⟩) [c] ?_
    rw [after_cons, if_neg hc]
    exact ih

variable [Target] [CharTable] [F64Math]

omit [F64Math] [CharTable] in
theorem matchKeyword_ne_literal (s : String) (n : Int64) : matchKeyword s ≠ .integerLiteral n := by
  unfold matchKeyword
  cases hlookup : keywords.lookup s with
  | none => nofun
  | some token =>
    have hkeywords : ∀ entry ∈ (keywords : List (String × Token)), entry.2 ≠ .integerLiteral n := by
      simp [keywords]
    obtain ⟨l₁, l₂, hsplit, _⟩ := lookup_eq_some_iff.1 hlookup
    exact hkeywords (s, token) (by rw [hsplit]; simp)

omit [F64Math] [CharTable] in
/-- Symbols are not empty, stay on their line, and are no literals. -/
theorem symbol_spec {symbol : List Char × Token} (h : symbol ∈ (symbols : List (List Char × Token))) :
    symbol.1 ≠ [] ∧ (∀ c ∈ symbol.1, c ≠ '\n') ∧ ∀ n, symbol.2 ≠ .integerLiteral n := by
  have hall : ∀ symbol ∈ (symbols : List (List Char × Token)),
      symbol.1 ≠ [] ∧ (∀ c ∈ symbol.1, c ≠ '\n') ∧ ∀ n, symbol.2 ≠ .integerLiteral n := by
    simp [symbols]
  exact hall symbol h

omit [Target] [F64Math] in
theorem isNameChar_ne_newline {c : Char} (h : isNameChar c = true) : c ≠ '\n' := by
  rintro rfl
  have halpha := CharTable.ascii_isAlphabetic '\n' (by decide)
  have hnum := CharTable.ascii_isNumeric '\n' (by decide)
  simp [isNameChar, halpha, hnum] at h

omit [Target] [CharTable] [F64Math] in
theorem isDigit_ne_newline {c : Char} (h : c.isDigit = true) : c ≠ '\n' := by
  rintro rfl
  revert h
  decide

omit [Target] [CharTable] [F64Math] in
/-- The characters of a number are its digits and its point. -/
theorem scanNumber_spec (cs : List Char) : ∃ used, cs = used ++ (scanNumber cs).2.2 ∧ (∀ c ∈ used, c ≠ '\n') ∧
      (scanNumber cs).1 = cs.takeWhile Char.isDigit ∧
      ((scanNumber cs).1 ≠ [] → used ≠ []) ∧
      ((scanNumber cs).2.1 = none → used = (scanNumber cs).1 ∧ (scanNumber cs).2.2 = cs.dropWhile Char.isDigit) := by
  have hdigits (l : List Char) : ∀ c ∈ l.takeWhile Char.isDigit, c ≠ '\n' := fun c hc =>
    isDigit_ne_newline (mem_takeWhile_imp hc)
  unfold scanNumber
  dsimp only
  split
  · rename_i hpointed
    obtain ⟨c, rest, hrest⟩ : ∃ c rest, cs.dropWhile Char.isDigit = '.' :: c :: rest := by
      revert hpointed
      generalize cs.dropWhile Char.isDigit = rest
      unfold pointed
      split
      · exact fun _ => ⟨_, _, rfl⟩
      · nofun
    refine ⟨cs.takeWhile Char.isDigit ++ '.' :: (c :: rest).takeWhile Char.isDigit, ?_, ?_, rfl, ?_, nofun⟩
    · rw [hrest, tail_cons, List.append_assoc, cons_append, takeWhile_append_dropWhile, ← hrest,
        takeWhile_append_dropWhile]
    · intro d hd
      rcases mem_append.1 hd with hd | hd
      · exact hdigits _ d hd
      · rcases mem_cons.1 hd with rfl | hd
        · decide
        · exact hdigits _ d hd
    · exact fun h => append_ne_nil_of_left_ne_nil h _
  · exact ⟨cs.takeWhile Char.isDigit, takeWhile_append_dropWhile.symm, hdigits _, rfl, id, fun _ => ⟨rfl, rfl⟩⟩

/-- What a round does: it goes behind at least one character, and a token for an integer literal is made of the
    digits in front. -/
structure Round (text : List Char) (s : Span) (token : Option Token) (cursor : Cursor) : Prop where
  behind : Behind text s cursor
  shorter : cursor.rest.length < text.length
  literal : ∀ n, token = some (.integerLiteral n) → ∃ digits post, text = digits ++ post ∧ digits ≠ [] ∧
    (∀ c ∈ digits, c.isDigit = true) ∧ (∀ c ∈ post.head?, c.isDigit = false) ∧ n = parseI64 digits

omit [F64Math] [CharTable] in
/-- A round that goes on the same line, behind some characters. -/
theorem Round.of_line {text used rest : List Char} {s : Span} {token : Option Token} (htext : text = used ++ rest)
    (hused : used ≠ []) (hline : ∀ c ∈ used, c ≠ '\n')
    (hliteral : ∀ n, token = some (.integerLiteral n) → ∃ digits post, text = digits ++ post ∧ digits ≠ [] ∧
      (∀ c ∈ digits, c.isDigit = true) ∧ (∀ c ∈ post.head?, c.isDigit = false) ∧ n = parseI64 digits) :
    Round text s token ⟨rest, s.line, s.col + used.length⟩ where
  behind := ⟨used, htext, (after_line hline s).symm⟩
  shorter := by
    have := length_pos_iff.2 hused
    rw [htext, length_append]
    dsimp only
    omega
  literal := hliteral

theorem tokenizeStep_round {c : Char} {line col : Nat} {token : Option Token} {cursor : Cursor}
    (h : tokenizeStep c cs line col = .ok (token, cursor)) : Round (c :: cs) ⟨line, col⟩ token cursor := by
  unfold tokenizeStep at h
  split at h
  · -- a new line
    rename_i hc
    cases h
    exact ⟨⟨[c], rfl, by rw [after_cons, if_pos hc]; rfl⟩, Nat.lt_succ_self _, nofun⟩
  · rename_i hnewline
    split at h
    · cases h
      exact @Round.of_line _ (c :: cs) [c] cs ⟨line, col⟩ _ rfl nofun (by simpa using hnewline) nofun
    · split at h
      · -- a comment
        rename_i hopen
        cases h
        obtain ⟨rfl, hstar⟩ := hopen
        cases cs with
        | nil => cases hstar
        | cons d cs =>
          obtain rfl : d = '*' := Option.some.inj hstar
          have hbehind := (behind_skipComment 1 cs line (col + 2)).prepend (s := ⟨line, col⟩) ['(', '*']
          refine ⟨hbehind, ?_, nofun⟩
          obtain ⟨used, hused, _⟩ := behind_skipComment 1 cs line (col + 2)
          have := congrArg List.length hused
          simp only [length_append, length_cons, tail_cons] at this ⊢
          omega
      · split at h
        · -- a symbol
          rename_i text token' hfind
          cases h
          obtain ⟨hne, hline, hliteral⟩ := symbol_spec (mem_of_find?_eq_some hfind)
          have hprefix : text.isPrefixOf (c :: cs) = true := (find?_eq_some_iff_append.1 hfind).1
          obtain ⟨rest, hrest⟩ := isPrefixOf_iff_prefix.1 hprefix
          dsimp only at hne hline hliteral
          rw [← hrest, drop_left]
          exact Round.of_line (s := ⟨line, col⟩) rfl hne hline fun n hn => absurd (Option.some.inj hn) (hliteral n)
        · split at h
          · -- a name
            rename_i hname
            cases h
            have hfirst : isNameChar c = true := by
              unfold isNameChar
              rcases Bool.or_eq_true_iff.1 hname with h | h <;> simp [h]
            refine Round.of_line (s := ⟨line, col⟩) takeWhile_append_dropWhile.symm ?_ ?_ fun n hn => ?_
            · rw [takeWhile_cons_of_pos hfirst]
              nofun
            · exact fun d hd => isNameChar_ne_newline (mem_takeWhile_imp hd)
            · exact absurd (Option.some.inj hn) (matchKeyword_ne_literal _ n)
          · split at h
            · -- a number
              rename_i hdigit
              have hspec := scanNumber_spec (c :: cs)
              generalize scanNumber (c :: cs) = scanned at h hspec
              obtain ⟨whole, fraction, rest⟩ := scanned
              dsimp only at h hspec
              cases h
              obtain ⟨used, hused, hline, hwhole, hne, hnone⟩ := hspec
              have hpos : whole ≠ [] := by
                rw [hwhole, takeWhile_cons_of_pos hdigit]
                nofun
              have hlength : (c :: cs).length - rest.length = used.length := by
                have := congrArg List.length hused
                rw [length_append] at this
                omega
              rw [hlength]
              refine Round.of_line (s := ⟨line, col⟩) hused (hne hpos) hline fun n hn => ?_
              cases fraction with
              | some fraction => cases hn
              | none =>
                cases hn
                obtain ⟨rfl, hrest⟩ := hnone rfl
                refine ⟨used, rest, hused, hpos, fun d hd => ?_, fun d hd => ?_, rfl⟩
                · rw [hwhole] at hd
                  exact mem_takeWhile_imp hd
                · have hstop := head?_dropWhile_not Char.isDigit (c :: cs)
                  rw [← hrest, Option.mem_def.1 hd] at hstop
                  exact hstop
            · cases h

/-! ## The whole text -/

/-- More rounds than characters change nothing. -/
theorem tokenizeFrom_of_length_le {n m : Nat} (hn : cs.length ≤ n) (hm : cs.length ≤ m)
    (line col : Nat) : tokenizeFrom n cs line col = tokenizeFrom m cs line col := by
  induction n generalizing m cs line col with
  | zero =>
    rw [length_eq_zero_iff.1 (Nat.le_zero.1 hn)]
    cases m <;> rfl
  | succ n ih =>
    cases cs with
    | nil => cases m <;> rfl
    | cons c cs =>
      rw [length_cons] at hn hm
      obtain ⟨m, rfl⟩ : ∃ k, m = k + 1 := ⟨m - 1, by omega⟩
      unfold tokenizeFrom
      cases hstep : tokenizeStep c cs line col with
      | error e => rfl
      | ok r =>
        obtain ⟨token, cursor⟩ := r
        have hshorter := (tokenizeStep_round hstep).shorter
        rw [length_cons] at hshorter
        have hrest : tokenizeFrom n cursor.rest cursor.line cursor.col =
            tokenizeFrom m cursor.rest cursor.line cursor.col := ih (by omega) (by omega) _ _
        simp only [bind, Except.bind, hrest]

theorem tokenizeFrom_literal {fuel : Nat} {text pre cs : List Char} {line col : Nat} {tokens : List TokenInfo}
    (htext : text = pre ++ cs) (hspan : (⟨1, 1⟩ : Span).after pre = ⟨line, col⟩)
    (h : tokenizeFrom fuel cs line col = .ok tokens) {ti : TokenInfo} (hti : ti ∈ tokens) {n : Int64}
    (htoken : ti.token = .integerLiteral n) : ∃ digits, Written text ti.span digits ∧ n = parseI64 digits := by
  induction fuel generalizing pre cs line col tokens with
  | zero =>
    cases h
    cases hti
  | succ fuel ih =>
    cases cs with
    | nil =>
      cases h
      cases hti
    | cons c cs =>
      unfold tokenizeFrom at h
      cases hstep : tokenizeStep c cs line col with
      | error e =>
        rw [hstep] at h
        cases h
      | ok r =>
        obtain ⟨token, cursor⟩ := r
        have hround := tokenizeStep_round hstep
        rw [hstep] at h
        simp only [bind, Except.bind] at h
        cases hrest : tokenizeFrom fuel cursor.rest cursor.line cursor.col with
        | error e =>
          rw [hrest] at h
          cases h
        | ok more =>
          rw [hrest] at h
          cases h
          rcases mem_append.1 hti with hti | hti
          · -- the token of this round
            cases token with
            | none => cases hti
            | some token =>
              obtain rfl := mem_singleton.1 hti
              obtain ⟨digits, post, hcs, hne, hdigits, hpost, hn⟩ := hround.literal n (congrArg some htoken)
              refine ⟨digits, ⟨hne, hdigits, pre, post, ?_, hspan, hpost⟩, hn⟩
              rw [htext, hcs, List.append_assoc]
          · obtain ⟨used, hused, hafter⟩ := hround.behind
            have htext' : text = (pre ++ used) ++ cursor.rest := by
              rw [htext, hused, List.append_assoc]
            have hspan' : (⟨1, 1⟩ : Span).after (pre ++ used) = ⟨cursor.line, cursor.col⟩ := by
              rw [after_append, hspan, hafter]
            exact ih htext' hspan' hrest hti

/-- **A literal token stands where its digits are**, and has the value that they are parsed to. -/
theorem tokenize_literal {source : String} {tokens : List TokenInfo} (h : tokenize source = .ok tokens)
    {ti : TokenInfo} (hti : ti ∈ tokens) {n : Int64} (htoken : ti.token = .integerLiteral n) :
    ∃ digits, Written source.toList ti.span digits ∧ n = parseI64 digits :=
  @tokenizeFrom_literal _ _ _ _ source.toList [] _ _ _ _ rfl rfl h _ hti _ htoken

end Audesys.St
