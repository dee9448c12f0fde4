import Mathlib.Algebra.Order.Ring.Int
import Mathlib.Data.List.DropRight
import Mathlib.Data.List.Induction

/-!
# `Lib.Text` — lines, words and case of a text

The functions of a standard library that line-oriented lexers are written with: the lines of a text, a line
without the white space around it, its words, and upper case. A text is its list of characters. The mapping to
upper case is a parameter; only its ASCII part is fixed.
-/

open List

namespace Audesys.Lib

variable {w : List Char}

/-! ## White space -/

/-- The characters with the Unicode property `White_Space`. -/
def isWhitespace (c : Char) : Bool :=
  (9 ≤ c.toNat && c.toNat ≤ 13) || c.toNat = 32 || c.toNat = 0x85 || c.toNat = 0xA0 || c.toNat = 0x1680 ||
    (0x2000 ≤ c.toNat && c.toNat ≤ 0x200A) || c.toNat = 0x2028 || c.toNat = 0x2029 || c.toNat = 0x202F ||
    c.toNat = 0x205F || c.toNat = 0x3000

/-- The text without the white space at both ends. -/
def trim (s : List Char) : List Char := (s.dropWhile isWhitespace).rdropWhile isWhitespace

/-- The pieces between white space, the empty ones left out. -/
def splitWhitespace (s : List Char) : List (List Char) :=
  (s.splitOnP isWhitespace).filter fun w => !w.isEmpty

/-- A word: not empty, and without white space. -/
structure IsWord (w : List Char) : Prop where
  ne_nil : w ≠ []
  not_space : ∀ c ∈ w, isWhitespace c = false

theorem IsWord.of_all (hne : w ≠ []) (h : w.all (fun c => !isWhitespace c) = true) : IsWord w := by
  refine ⟨hne, ?_⟩
  intro c hc
  have hc' := all_eq_true.1 h c hc
  rw [Bool.not_eq_true'] at hc'
  exact hc'

theorem IsWord.isEmpty (h : IsWord w) : w.isEmpty = false := isEmpty_eq_false_iff.2 h.ne_nil

theorem splitWhitespace_word (h : IsWord w) : splitWhitespace w = [w] := by
  unfold splitWhitespace
  rw [splitOnP_eq_singleton h.not_space]
  simp [h.isEmpty]

/-- A word in front, with white space behind it. -/
theorem splitWhitespace_cons (h : IsWord w) {c : Char} (hc : isWhitespace c = true) (s : List Char) :
    splitWhitespace (w ++ c :: s) = w :: splitWhitespace s := by
  unfold splitWhitespace
  rw [splitOnP_append_cons_of_forall_mem h.not_space c hc, filter_cons]
  simp [h.isEmpty]

/-- Two words with white space between them. -/
theorem splitWhitespace_pair {w w' : List Char} (h : IsWord w) (h' : IsWord w') {c : Char} (hc : isWhitespace c = true) :
    splitWhitespace (w ++ c :: w') = [w, w'] := by
  rw [splitWhitespace_cons h hc, splitWhitespace_word h']

/-- White space in front of a text that starts and ends with something else. -/
theorem trim_pad {pad s : List Char} (hpad : pad.all isWhitespace = true)
    (hhead : ∀ c, s.head? = some c → isWhitespace c = false) (hlast : ∀ c, s.getLast? = some c → isWhitespace c = false) :
    trim (pad ++ s) = s := by
  unfold trim
  have hdrop : (pad ++ s).dropWhile isWhitespace = s := by
    rw [dropWhile_append_of_pos (all_eq_true.1 hpad)]
    cases s with
    | nil => rfl
    | cons c s => exact dropWhile_cons_of_neg (by rw [hhead c rfl]; exact Bool.false_ne_true)
  rw [hdrop]
  rcases eq_nil_or_concat' s with rfl | ⟨front, c, rfl⟩
  · rfl
  · refine rdropWhile_concat_neg _ _ _ ?_
    rw [hlast c (by simp)]
    exact Bool.false_ne_true

/-- White space behind a text that starts and ends with something else. -/
theorem trim_behind {pad s : List Char} (hpad : pad.all isWhitespace = true) (hne : s ≠ [])
    (hhead : ∀ c, s.head? = some c → isWhitespace c = false) (hlast : ∀ c, s.getLast? = some c → isWhitespace c = false) :
    trim (s ++ pad) = s := by
  have hpad' : ∀ c ∈ pad.reverse, isWhitespace c = true := fun c hc =>
    all_eq_true.1 hpad c (mem_reverse.1 hc)
  have hdrop : (s ++ pad).dropWhile isWhitespace = s ++ pad := by
    obtain ⟨c, s', rfl⟩ := exists_cons_of_ne_nil hne
    exact dropWhile_cons_of_neg (by rw [hhead c rfl]; exact Bool.false_ne_true)
  have hback : (s ++ pad).rdropWhile isWhitespace = s.rdropWhile isWhitespace := by
    unfold List.rdropWhile
    rw [reverse_append, dropWhile_append_of_pos hpad']
  unfold trim
  rw [hdrop, hback]
  rcases eq_nil_or_concat' s with rfl | ⟨front, c, rfl⟩
  · rfl
  · refine rdropWhile_concat_neg _ _ _ ?_
    rw [hlast c (by simp)]
    exact Bool.false_ne_true

/-- White space in front of two words. -/
theorem trim_pad_pair {pad w w' : List Char} (hpad : pad.all isWhitespace = true) (h : IsWord w) (h' : IsWord w')
    (c : Char) : trim (pad ++ (w ++ c :: w')) = w ++ c :: w' := by
  refine trim_pad hpad ?_ ?_
  · intro d hd
    refine h.not_space d ?_
    obtain ⟨e, rest, heq⟩ := exists_cons_of_ne_nil h.ne_nil
    rw [heq] at hd ⊢
    cases hd
    exact mem_cons_self
  · intro d hd
    refine h'.not_space d (mem_of_getLast? ?_)
    rw [← hd]
    rcases eq_nil_or_concat' w' with hnil | ⟨front, e, heq⟩
    · exact absurd hnil h'.ne_nil
    · rw [heq, ← cons_append, ← List.append_assoc, getLast?_concat, getLast?_concat]

/-! ## Lines -/

/-- A line without the carriage return at its end. -/
def stripCr (l : List Char) : List Char := if l.getLast? = some '\r' then l.dropLast else l

/-- The lines of a text. What is behind the last line feed is a line unless it is empty, and keeps its carriage
return. -/
def lines (s : List Char) : List (List Char) :=
  let pieces := s.splitOn '\n'
  pieces.dropLast.map stripCr ++ (pieces.getLast?.toList.filter fun l => !l.isEmpty)

/-- A line that is not empty and contains no line end. -/
structure IsLine (l : List Char) : Prop where
  ne_nil : l ≠ []
  not_feed : '\n' ∉ l
  not_return : '\r' ∉ l

/-- Two words with a blank between them, behind blanks. -/
theorem isLine_pair {pad w w' : List Char} (hpad : pad.all (fun c => decide (c = ' ')) = true) (h : IsWord w) (h' : IsWord w') :
    IsLine (pad ++ (w ++ ' ' :: w')) := by
  have hend : ∀ c, isWhitespace c = true → c ≠ ' ' → c ∉ pad ++ (w ++ ' ' :: w') := by
    intro c hspace hblank hin
    rcases mem_append.1 hin with hin | hin
    · exact hblank (of_decide_eq_true (all_eq_true.1 hpad c hin))
    rcases mem_append.1 hin with hin | hin
    · rw [h.not_space c hin] at hspace
      cases hspace
    rcases mem_cons.1 hin with heq | hin
    · exact hblank heq
    · rw [h'.not_space c hin] at hspace
      cases hspace
  refine ⟨?_, hend _ (by decide) (by decide), hend _ (by decide) (by decide)⟩
  intro hnil
  exact h.ne_nil (append_eq_nil_iff.1 (append_eq_nil_iff.1 hnil).2).1

theorem stripCr_eq {l : List Char} (h : '\r' ∉ l) : stripCr l = l := by
  refine if_neg ?_
  intro hlast
  exact h (mem_of_getLast? hlast)

/-- **The lines** of a text that was put together from lines. -/
theorem lines_intercalate {ls : List (List Char)} (h : ∀ l ∈ ls, IsLine l) : lines (['\n'].intercalate ls) = ls := by
  unfold lines
  rcases eq_nil_or_concat' ls with rfl | ⟨front, last, rfl⟩
  · rfl
  · rw [splitOn_intercalate '\n' (fun l hl => (h l hl).not_feed) (by simp)]
    have hfront : front.map stripCr = front := by
      refine (map_congr_left fun l hl => ?_).trans (map_id front)
      exact stripCr_eq (h l (mem_append_left _ hl)).not_return
    have hlast : last.isEmpty = false :=
      isEmpty_eq_false_iff.2 (h last (mem_append_right _ (mem_singleton_self last))).ne_nil
    simp [hfront, hlast]

/-! ## Cutting -/

/-- The text without the white space at its end. -/
def trimEnd (s : List Char) : List Char := s.rdropWhile isWhitespace

theorem trimEnd_append (l s : List Char) :
    trimEnd (l ++ s) = if trimEnd s = [] then trimEnd l else l ++ trimEnd s := by
  unfold trimEnd
  induction s using List.reverseRecOn with
  | nil => simp
  | append_singleton s c ih =>
    rw [← List.append_assoc]
    by_cases hc : isWhitespace c = true
    · rw [rdropWhile_concat_pos _ _ _ hc, rdropWhile_concat_pos _ _ _ hc, ih]
    · rw [rdropWhile_concat_neg _ _ _ hc, rdropWhile_concat_neg _ _ _ hc, if_neg (by simp)]
      exact List.append_assoc _ _ _

/-- A word is not cut. -/
theorem IsWord.trimEnd (h : IsWord w) : trimEnd w = w := by
  unfold Lib.trimEnd
  rw [rdropWhile_eq_self_iff]
  intro hne hspace
  rw [h.not_space _ (getLast_mem hne)] at hspace
  cases hspace

/-- What is behind a word is cut on its own. -/
theorem IsWord.trimEnd_append (h : IsWord w) (s : List Char) : Lib.trimEnd (w ++ s) = w ++ Lib.trimEnd s := by
  rw [Lib.trimEnd_append]
  split
  · rename_i hs
    rw [hs, h.trimEnd, List.append_nil]
  · rfl

/-- White space in front of a word is cut off. -/
theorem trim_word {pad w : List Char} (hpad : ∀ c ∈ pad, isWhitespace c = true) (hw : IsWord w) (s : List Char) :
    trim (pad ++ (w ++ s)) = w ++ trimEnd s := by
  obtain ⟨c, rest, rfl⟩ := exists_cons_of_ne_nil hw.ne_nil
  have hdrop : (pad ++ (c :: rest ++ s)).dropWhile isWhitespace = c :: rest ++ s := by
    rw [dropWhile_append_of_pos hpad, cons_append,
      dropWhile_cons_of_neg (by rw [hw.not_space c mem_cons_self]; exact Bool.false_ne_true)]
  show trimEnd ((pad ++ (c :: rest ++ s)).dropWhile isWhitespace) = _
  rw [hdrop, hw.trimEnd_append]

/-- White space at the end is cut off. -/
theorem trim_concat (s : List Char) {c : Char} (hc : isWhitespace c = true) : trim (s ++ [c]) = trim s := by
  unfold trim
  rw [List.dropWhile_append]
  split
  · rename_i hempty
    rw [isEmpty_iff.1 hempty, dropWhile_cons_of_pos hc]
    rfl
  · exact rdropWhile_concat_pos _ _ _ hc

theorem trim_stripCr (l : List Char) : trim (stripCr l) = trim l := by
  unfold stripCr
  split
  · rename_i hlast
    rcases eq_nil_or_concat' l with rfl | ⟨front, c, rfl⟩
    · rfl
    · rw [getLast?_concat, Option.some.injEq] at hlast
      rw [dropLast_concat, hlast, trim_concat front (by decide)]
  · rfl

def startsWith (p s : List Char) : Bool := p.isPrefixOf s

def stripPrefix (p s : List Char) : Option (List Char) := if p.isPrefixOf s then some (s.drop p.length) else none

/-- What is in front of the first occurrence of `p`, and what is behind it. -/
def splitOnce (p : List Char) : List Char → Option (List Char × List Char)
  | [] => if p.isEmpty then some ([], []) else none
  | c :: s =>
    if p.isPrefixOf (c :: s) then some ([], (c :: s).drop p.length)
    else (splitOnce p s).map fun (l, r) => (c :: l, r)

theorem splitOnce_eq {p s l r : List Char} (h : splitOnce p s = some (l, r)) : s = l ++ p ++ r := by
  induction s generalizing l with
  | nil =>
    unfold splitOnce at h
    split at h
    · rename_i hp
      cases h
      rw [isEmpty_iff.1 hp]
      rfl
    · cases h
  | cons c s ih =>
    unfold splitOnce at h
    split at h
    · rename_i hp
      cases h
      exact (prefix_iff_eq_append.1 (List.isPrefixOf_iff_prefix.1 hp)).symm
    · cases hrest : splitOnce p s with
      | none =>
        rw [hrest] at h
        cases h
      | some q =>
        rw [hrest] at h
        cases h
        rw [ih hrest]
        rfl

/-- The text without the characters `c` at its end. -/
def trimEndMatches (c : Char) (s : List Char) : List Char := s.rdropWhile (· = c)

/-- What is in front of the last occurrence of `c`, and what is behind it. -/
def rsplitOnce (c : Char) (s : List Char) : Option (List Char × List Char) :=
  (splitOnce [c] s.reverse).map fun (l, r) => (r.reverse, l.reverse)

def eqIgnoreAsciiCase (s t : List Char) : Bool := s.map Char.toLower = t.map Char.toLower

/-! ## Offsets in bytes -/

/-- The length in UTF-8. -/
def byteLength (s : List Char) : Nat := (s.map Char.utf8Size).sum

/-- The byte offset of the first occurrence of `p`. -/
def findBytes (p s : List Char) : Option Nat := (splitOnce p s).map fun q => byteLength q.1

/-- The text in two at a byte offset; `none` is the panic where no character starts there. -/
def splitBytes : Nat → List Char → Option (List Char × List Char)
  | 0, s => some ([], s)
  | _ + 1, [] => none
  | n + 1, c :: s =>
    if c.utf8Size ≤ n + 1 then (splitBytes (n + 1 - c.utf8Size) s).map fun (l, r) => (c :: l, r) else none

theorem splitBytes_eq {n : Nat} {s l r : List Char} (h : splitBytes n s = some (l, r)) : s = l ++ r := by
  induction s generalizing n l with
  | nil =>
    cases n with
    | zero =>
      cases h
      rfl
    | succ n => cases h
  | cons c s ih =>
    cases n with
    | zero =>
      cases h
      rfl
    | succ n =>
      unfold splitBytes at h
      split at h
      · obtain ⟨⟨l', r'⟩, hrest, heq⟩ := Option.map_eq_some_iff.1 h
        cases heq
        rw [ih hrest]
        rfl
      · cases h

/-! ## What the pieces of a text consist of -/

theorem trimEnd_subset (s : List Char) : trimEnd s ⊆ s := (List.rdropWhile_prefix _ _).subset

theorem trim_subset (s : List Char) : trim s ⊆ s :=
  List.Subset.trans (List.rdropWhile_prefix _ _).subset (dropWhile_suffix _).subset

theorem stripPrefix_subset {p s r : List Char} (h : stripPrefix p s = some r) : r ⊆ s := by
  unfold stripPrefix at h
  split at h
  · cases h
    exact drop_subset _ _
  · cases h

theorem trimEndMatches_subset (c : Char) (s : List Char) : trimEndMatches c s ⊆ s := (List.rdropWhile_prefix _ _).subset

theorem splitBytes_subset {n : Nat} {s l r : List Char} (h : splitBytes n s = some (l, r)) : l ⊆ s ∧ r ⊆ s := by
  rw [splitBytes_eq h]
  exact ⟨subset_append_left _ _, subset_append_right _ _⟩

theorem splitOnce_subset {p s l r : List Char} (h : splitOnce p s = some (l, r)) : l ⊆ s ∧ r ⊆ s := by
  rw [splitOnce_eq h]
  refine ⟨?_, subset_append_right _ _⟩
  rw [List.append_assoc]
  exact subset_append_left _ _

/-- The pieces between separators. -/
theorem mem_splitOnP {p : Char → Bool} {s piece : List Char} (h : piece ∈ s.splitOnP p) :
    ∀ c ∈ piece, c ∈ s ∧ p c = false := by
  induction s generalizing piece with
  | nil =>
    rw [splitOnP_nil, mem_singleton] at h
    rw [h]
    intro c hc
    cases hc
  | cons d s ih =>
    have hbehind : ∀ piece ∈ s.splitOnP p, ∀ c ∈ piece, c ∈ d :: s ∧ p c = false := by
      intro piece hpiece c hc
      exact ⟨mem_cons_of_mem _ (ih hpiece c hc).1, (ih hpiece c hc).2⟩
    rw [splitOnP_cons_eq_if_modifyHead] at h
    split at h
    · rcases mem_cons.1 h with rfl | h
      · intro c hc
        cases hc
      · exact hbehind piece h
    · rename_i hd
      cases hs : s.splitOnP p with
      | nil => exact absurd hs (splitOnP_ne_nil p s)
      | cons first rest =>
        rw [hs] at h hbehind
        rcases mem_cons.1 h with rfl | h
        · intro c hc
          rcases mem_cons.1 hc with rfl | hc
          · exact ⟨mem_cons_self, by rwa [Bool.not_eq_true] at hd⟩
          · exact hbehind first mem_cons_self c hc
        · exact hbehind piece (mem_cons_of_mem _ h)

theorem isWord_of_mem {s w : List Char} (h : w ∈ splitWhitespace s) : IsWord w := by
  obtain ⟨hpiece, hne⟩ := mem_filter.1 h
  refine ⟨?_, fun c hc => (mem_splitOnP hpiece c hc).2⟩
  rintro rfl
  cases hne

theorem stripCr_subset (l : List Char) : stripCr l ⊆ l := by
  unfold stripCr
  split
  · exact dropLast_subset l
  · exact List.Subset.refl l

/-- A line contains no line feed. -/
theorem not_feed_of_mem_lines {s l : List Char} (h : l ∈ lines s) : '\n' ∉ l := by
  have hpiece : ∀ piece ∈ s.splitOn '\n', '\n' ∉ piece := by
    intro piece hin hfeed
    have hsep := (mem_splitOnP hin _ hfeed).2
    cases hsep
  rcases mem_append.1 h with h | h
  · obtain ⟨piece, hin, rfl⟩ := mem_map.1 h
    intro hfeed
    exact hpiece piece (dropLast_subset _ hin) (stripCr_subset piece hfeed)
  · have hlast := (mem_filter.1 h).1
    rw [Option.mem_toList] at hlast
    exact hpiece l (mem_of_getLast? hlast)

/-! ## Sorted keys -/

/-- A pair into a list that is sorted by its keys, in place of the pair with that key. -/
def insertKey {α : Type} (k : List Char) (v : α) : List (List Char × α) → List (List Char × α)
  | [] => [(k, v)]
  | (k', v') :: rest =>
    if k < k' then (k, v) :: (k', v') :: rest
    else if k = k' then (k, v) :: rest
    else (k', v') :: insertKey k v rest

theorem mem_insertKey {α : Type} {k : List Char} {v : α} {l : List (List Char × α)} {q : List Char × α}
    (h : q ∈ insertKey k v l) : q = (k, v) ∨ q ∈ l := by
  induction l with
  | nil => exact .inl (mem_singleton.1 h)
  | cons q' rest ih =>
    unfold insertKey at h
    split at h
    · exact mem_cons.1 h
    · split at h
      · rcases mem_cons.1 h with h | h
        · exact .inl h
        · exact .inr (mem_cons_of_mem _ h)
      · rcases mem_cons.1 h with h | h
        · exact .inr (h ▸ mem_cons_self)
        · rcases ih h with h | h
          · exact .inl h
          · exact .inr (mem_cons_of_mem _ h)

/-! ## Upper case -/

/-- The mapping of a character to upper case, which may be several characters. -/
class CaseMap where
  upper : Char → List Char
  upper_ascii : ∀ c : Char, c.toNat < 128 → upper c = [c.toUpper]

/-- Upper case of ASCII; other characters stay. -/
@[reducible] def CaseMap.ascii : CaseMap := ⟨fun c => [c.toUpper], fun _ _ => rfl⟩

section
variable [CaseMap]

def toUppercase (s : List Char) : List Char := s.flatMap CaseMap.upper

/-- Nothing to map. -/
def IsUpper (s : List Char) : Prop := ∀ c ∈ s, CaseMap.upper c = [c]

theorem IsUpper.eq {s : List Char} (h : IsUpper s) : toUppercase s = s := by
  unfold toUppercase
  induction s with
  | nil => rfl
  | cons c s ih =>
    rw [flatMap_cons, h c mem_cons_self, ih fun d hd => h d (mem_cons_of_mem _ hd)]
    rfl

theorem IsUpper.append {s t : List Char} (hs : IsUpper s) (ht : IsUpper t) : IsUpper (s ++ t) := by
  intro c hc
  rcases mem_append.1 hc with hc | hc
  · exact hs c hc
  · exact ht c hc

/-- ASCII text without lower case letters. -/
theorem IsUpper.of_ascii {s : List Char} (h : s.all (fun c => decide (c.toNat < 128) && decide (c.toUpper = c)) = true) :
    IsUpper s := by
  intro c hc
  have hc' := all_eq_true.1 h c hc
  rw [Bool.and_eq_true, decide_eq_true_eq, decide_eq_true_eq] at hc'
  rw [CaseMap.upper_ascii c hc'.1, hc'.2]

end

end Audesys.Lib
