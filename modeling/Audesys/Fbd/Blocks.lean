import Audesys.Fbd.Compiler

/-!
# `Fbd.Blocks` — the `BLOCK` statements of a source

The blocks of an accepted source are those of its `BLOCK` statements: there is at least one, and no two have one name
(`fbdCompile_headers`). Every other statement is a wiring with its `:=`.
-/

open List

namespace Audesys.Fbd

open Audesys.Lib

variable {w w' : Wiring} {l : List Char}

/-- The name in a `BLOCK` statement with a kind of block. -/
def blockName (line : List Char) : Option (List Char) :=
  match stripPrefix "BLOCK ".toList line with
  | some rest =>
    match splitWhitespace rest with
    | name :: kindStr :: _ => if (FbKind.fromStr (String.ofList kindStr)).isSome then some name else none
    | _ => none
  | none => none

/-- The names in the `BLOCK` statements of a text. -/
def headers (s : List Char) : List (List Char) := (s.splitOn '\n').filterMap fun l => blockName (trim l)

theorem headers_append (s t : List Char) : headers (s ++ '\n' :: t) = headers s ++ headers t := by
  unfold headers
  rw [splitOn_append_cons_self, filterMap_append]

theorem headers_line (h : '\n' ∉ l) : headers l = (blockName (trim l)).toList := by
  unfold headers
  rw [splitOn_eq_singleton h, filterMap_cons]
  cases blockName (trim l) with
  | none => rfl
  | some name => rfl

theorem headers_intercalate (ls : List (List Char)) : headers (['\n'].intercalate ls) = ls.flatMap headers := by
  induction ls with
  | nil => decide
  | cons l ls ih =>
    cases ls with
    | nil =>
      rw [intercalate_singleton, flatMap_singleton]
    | cons l' ls =>
      rw [intercalate_cons_cons, List.append_assoc, singleton_append, headers_append, ih, ← flatMap_cons]

/-- What the tokenizer leaves out is no `BLOCK` statement. -/
theorem blockName_skipped
    (h : (!l.isEmpty && !startsWith [';'] l && !startsWith ['/', '/'] l) = false) : blockName l = none := by
  unfold blockName
  have hfront : stripPrefix "BLOCK ".toList l = none := by
    unfold stripPrefix
    apply if_neg
    intro hblock
    obtain ⟨rest, rfl⟩ := isPrefixOf_iff_prefix.1 hblock
    exact absurd h (by
      show ¬ (!false && !false && !false) = false
      decide)
  rw [hfront]

theorem headers_tokenize (source : List Char) : (tokenize source).filterMap blockName = headers source := by
  unfold tokenize headers
  have hskip : ∀ ls : List (List Char),
      (ls.filter fun l => !l.isEmpty && !startsWith [';'] l && !startsWith ['/', '/'] l).filterMap blockName =
        ls.filterMap blockName := by
    intro ls
    rw [filterMap_filter]
    apply filterMap_congr
    intro l _
    by_cases hl : (!l.isEmpty && !startsWith [';'] l && !startsWith ['/', '/'] l) = true
    · exact if_pos hl
    · rw [if_neg hl]
      exact (blockName_skipped (Bool.eq_false_iff.2 hl)).symm
  rw [hskip, filterMap_map]
  unfold lines
  rcases eq_nil_or_concat' (source.splitOn '\n') with hnil | ⟨front, last, heq⟩
  · exact absurd hnil (splitOn_ne_nil _ _)
  · rw [heq]
    dsimp only
    rw [dropLast_concat, getLast?_concat, filterMap_append, filterMap_append]
    congr 1
    · rw [filterMap_map]
      apply filterMap_congr
      intro l _
      exact congrArg blockName (trim_stripCr l)
    · by_cases hlast : last = []
      · rw [hlast]
        decide
      · have hfull : (!last.isEmpty) = true := by
          rw [isEmpty_eq_false_iff.2 hlast]
          rfl
        rw [Option.toList_some, filter_cons, if_pos hfull]
        rfl

/-- A line that is not empty after trimming, and no comment, is a statement. -/
theorem mem_tokenize {source l : List Char} (hl : l ∈ source.splitOn '\n')
    (h : (!(trim l).isEmpty && !startsWith [';'] (trim l) && !startsWith ['/', '/'] (trim l)) = true) :
    trim l ∈ tokenize source := by
  unfold tokenize
  rw [mem_filter]
  refine ⟨?_, h⟩
  unfold lines
  rcases eq_nil_or_concat' (source.splitOn '\n') with hnil | ⟨front, last, heq⟩
  · exact absurd hnil (splitOn_ne_nil _ _)
  · rw [heq] at hl ⊢
    dsimp only
    rw [dropLast_concat, getLast?_concat, map_append, mem_append]
    rcases mem_append.1 hl with hl | hl
    · left
      rw [map_map]
      exact mem_map.2 ⟨l, hl, trim_stripCr l⟩
    · right
      rw [mem_singleton.1 hl] at h ⊢
      have hne : last.isEmpty = false := by
        rw [isEmpty_eq_false_iff]
        rintro rfl
        exact absurd h (by decide)
      apply mem_map.2
      refine ⟨last, ?_, rfl⟩
      rw [Option.toList_some, mem_filter, hne]
      exact ⟨mem_singleton_self _, rfl⟩

/-! ## The parser -/

theorem map_name_updateBlock {name : List Char} {f : FbBlock → FbBlock} (hf : ∀ b, (f b).name = b.name)
    {blocks blocks' : List FbBlock} (h : updateBlock name f blocks = some blocks') :
    blocks'.map (·.name) = blocks.map (·.name) := by
  induction blocks generalizing blocks' with
  | nil => cases h
  | cons b rest ih =>
    unfold updateBlock at h
    split at h
    · cases h
      rw [map_cons, map_cons, hf]
    · obtain ⟨rest', hrest', rfl⟩ := Option.map_eq_some_iff.1 h
      rw [map_cons, map_cons, ih hrest']

theorem map_name_storeOutputs (outputs : List (List Char × List Char)) (blocks : List FbBlock) :
    (outputs.foldl storeOutput blocks).map (·.name) = blocks.map (·.name) := by
  induction outputs generalizing blocks with
  | nil => rfl
  | cons output outputs ih =>
    rw [foldl_cons, ih]
    unfold storeOutput
    cases hdot : splitDot output.2 with
    | none => rfl
    | some q =>
      dsimp only
      cases hupdate : updateBlock q.1 (fun b => { b with outputs := insertKey output.1 q.2 b.outputs }) blocks with
      | none => rfl
      | some blocks' =>
        rw [Option.getD_some]
        apply map_name_updateBlock _ hupdate
        exact fun _ => rfl

/-- What an accepted line does to the names: a `BLOCK` statement adds a new one, any other line is a wiring. -/
structure LineNames (w w' : Wiring) (l : List Char) : Prop where
  names : w'.blocks.map (·.name) = w.blocks.map (·.name) ++ (blockName (trimEnd l)).toList
  fresh : ∀ name ∈ blockName (trimEnd l), name ∉ w.blocks.map (·.name)
  wiring : blockName (trimEnd l) = none → trimEnd l ≠ [] → [':', '='] <:+: trimEnd l

theorem Wiring.assign_names {lhs rhs : List Char} (h : w.assign lhs rhs = .ok w') :
    w'.blocks.map (·.name) = w.blocks.map (·.name) := by
  unfold Wiring.assign at h
  split at h
  · split at h
    · rename_i hupdate
      cases h
      apply map_name_updateBlock _ hupdate
      exact fun _ => rfl
    · cases h
  · split at h
    · split at h
      · cases h
      · split at h
        · cases h
          rfl
        · cases h
    · cases h
      rfl

theorem Wiring.block_names {l rest : List Char} (hl : stripPrefix "BLOCK ".toList l = some rest)
    (h : w.block l rest = .ok w') : ∃ name, blockName l = some name ∧ name ∉ w.blocks.map (·.name) ∧
      w'.blocks.map (·.name) = w.blocks.map (·.name) ++ [name] := by
  unfold blockName
  rw [hl]
  unfold Wiring.block at h
  dsimp only
  cases hwords : splitWhitespace rest with
  | nil =>
    rw [hwords] at h
    cases h
  | cons name tail =>
    cases tail with
    | nil =>
      rw [hwords] at h
      cases h
    | cons kindStr tail =>
      rw [hwords] at h
      dsimp only at h ⊢
      cases hkind : FbKind.fromStr (String.ofList kindStr) with
      | none =>
        rw [hkind] at h
        cases h
      | some kind =>
        rw [hkind] at h
        dsimp only at h
        split at h
        · cases h
        · rename_i hdup
          cases h
          refine ⟨name, rfl, ?_, ?_⟩
          · intro hmem
            obtain ⟨b, hb, hname⟩ := mem_map.1 hmem
            exact hdup (any_eq_true.2 ⟨b, hb, decide_eq_true hname⟩)
          · rw [map_append]
            rfl

theorem Wiring.line_names (h : w.line l = .ok w') : LineNames w w' l := by
  unfold Wiring.line at h
  dsimp only at h
  split at h
  -- an empty line changes nothing
  · rename_i hempty
    cases h
    have hnone : blockName (trimEnd l) = none := by
      rw [isEmpty_iff.1 hempty]
      rfl
    refine ⟨?_, ?_, ?_⟩
    · rw [hnone]
      exact (List.append_nil _).symm
    · intro name hname
      rw [hnone] at hname
      cases hname
    · exact fun _ hne => absurd (isEmpty_iff.1 hempty) hne
  · split at h
    -- a line of a block gives a name
    · rename_i rest hfront
      obtain ⟨name, hname, hfresh, hnames⟩ := Wiring.block_names hfront h
      refine ⟨?_, ?_, ?_⟩
      · rw [hname]
        exact hnames
      · intro name' hname'
        rw [hname] at hname'
        cases hname'
        exact hfresh
      · intro hnone
        rw [hname] at hnone
        cases hnone
    · rename_i hfront
      have hnone : blockName (trimEnd l) = none := by
        unfold blockName
        rw [hfront]
      split at h
      -- a line of a wire has an equals sign
      · rename_i lhs rhs hassign
        refine ⟨?_, ?_, ?_⟩
        · rw [hnone, Wiring.assign_names h]
          exact (List.append_nil _).symm
        · intro name hname
          rw [hnone] at hname
          cases hname
        · intro _ _
          obtain ⟨⟨front, back⟩, hsplit, _⟩ := Option.map_eq_some_iff.1 hassign
          exact ⟨front, back, (splitOnce_eq hsplit).symm⟩
      · cases h

theorem trimEnd_trim (l : List Char) : trimEnd (trim l) = trim l := rdropWhile_idempotent _ _

/-- The lines of an accepted source: the names of the blocks in order, no name twice. -/
theorem foldlM_names {ls : List (List Char)} (hls : ∀ l ∈ ls, trimEnd l = l)
    (hnodup : (w.blocks.map (·.name)).Nodup) (h : ls.foldlM Wiring.line w = .ok w') :
    w'.blocks.map (·.name) = w.blocks.map (·.name) ++ ls.filterMap blockName ∧ (w'.blocks.map (·.name)).Nodup ∧
      ∀ l ∈ ls, blockName l = none → l ≠ [] → [':', '='] <:+: l := by
  induction ls generalizing w with
  | nil =>
    cases h
    exact ⟨(List.append_nil _).symm, hnodup, fun l hl => absurd hl not_mem_nil⟩
  | cons l ls ih =>
    rw [foldlM_cons] at h
    cases hline : w.line l with
    | error e =>
      rw [hline] at h
      cases h
    | ok w₁ =>
      rw [hline] at h
      obtain ⟨hnames, hfresh, hwiring⟩ := Wiring.line_names hline
      rw [hls l (mem_cons_self ..)] at hnames hfresh hwiring
      have hnodup₁ : (w₁.blocks.map (·.name)).Nodup := by
        rw [hnames]
        cases hname : blockName l with
        | none =>
          rw [Option.toList_none, List.append_nil]
          exact hnodup
        | some name =>
          rw [Option.toList_some, nodup_append]
          refine ⟨hnodup, nodup_singleton name, ?_⟩
          rintro a ha b hb rfl
          rw [mem_singleton] at hb
          rw [hb] at ha
          exact hfresh name hname ha
      obtain ⟨hrest, hnodup', hall⟩ := ih (fun l' hl' => hls l' (mem_cons_of_mem _ hl')) hnodup₁ h
      refine ⟨?_, hnodup', ?_⟩
      · rw [hrest, hnames, List.append_assoc]
        congr 1
        cases hname : blockName l with
        | none => rw [filterMap_cons_none hname, Option.toList_none, nil_append]
        | some name => rw [filterMap_cons_some hname, Option.toList_some, singleton_append]
      · intro l' hl'
        rcases mem_cons.1 hl' with rfl | hl'
        · exact hwiring
        · exact hall l' hl'

/-- **An accepted source** has a block, no two of one name, and every other statement is a wiring. -/
theorem fbdCompile_headers {source il : List Char} (h : fbdCompile source = .ok il) :
    headers source ≠ [] ∧ (headers source).Nodup ∧
      ∀ l ∈ tokenize source, blockName l = none → [':', '='] <:+: l := by
  obtain ⟨blocks, hparse, hne, _, _⟩ := fbdCompile_ok h
  unfold parseBlocks at hparse
  cases hread : (tokenize source).foldlM Wiring.line ⟨[], []⟩ with
  | error e =>
    rw [hread] at hparse
    cases hparse
  | ok w =>
    rw [hread] at hparse
    have htrimmed : ∀ l ∈ tokenize source, trimEnd l = l ∧ l ≠ [] := by
      intro l hl
      obtain ⟨hmem, hkept⟩ := mem_filter.1 hl
      obtain ⟨raw, _, rfl⟩ := mem_map.1 hmem
      refine ⟨trimEnd_trim raw, ?_⟩
      intro hnil
      rw [hnil] at hkept
      exact absurd hkept (by decide)
    have hempty : ((⟨[], []⟩ : Wiring).blocks.map (·.name)).Nodup := nodup_nil
    obtain ⟨hnames, hnodup, hwiring⟩ := foldlM_names (fun l hl => (htrimmed l hl).1) hempty hread
    rw [map_nil, nil_append, headers_tokenize] at hnames
    have hblocks : blocks.map (·.name) = headers source := by
      rw [← hnames]
      change (if (w.outputs.foldl storeOutput w.blocks).isEmpty = true then Except.error "no function blocks found"
        else .ok (w.outputs.foldl storeOutput w.blocks)) = .ok blocks at hparse
      split at hparse
      · cases hparse
      · cases hparse
        exact map_name_storeOutputs w.outputs w.blocks
    refine ⟨?_, ?_, ?_⟩
    · rw [← hblocks]
      exact fun hnil => hne (map_eq_nil_iff.1 hnil)
    · rw [← hnames]
      exact hnodup
    · exact fun l hl hnone => hwiring l hl hnone (htrimmed l hl).2

end Audesys.Fbd
