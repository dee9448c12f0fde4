import Audesys.Il.Lines

/-!
# `Fbd.Compiler` — function block diagrams to Instruction List

`audesys-fbd-compiler`: the lines of a diagram, the blocks with their wiring, and the text of Instruction List. A block
becomes `LD`/`ST` pairs for its inputs and a `CAL` of its name; the outputs follow behind all blocks. A pin that is
wired twice has its last wiring, and an output that is no pin of a block is nowhere in the text
(`statements_generateIl`).
-/

open List

namespace Audesys.Fbd

open Audesys.Hal Audesys.Il Audesys.Lib

variable {blocks : List FbBlock}

/-! ## Blocks -/

inductive FbKind where
  | ton | tof | tp | ctu | ctd | ctud | sr | rs | rTrig | fTrig
  deriving DecidableEq

def FbKind.fromStr : String → Option FbKind
  | "TON" => some .ton
  | "TOF" => some .tof
  | "TP" => some .tp
  | "CTU" => some .ctu
  | "CTD" => some .ctd
  | "CTUD" => some .ctud
  | "SR" => some .sr
  | "RS" => some .rs
  | "R_TRIG" => some .rTrig
  | "F_TRIG" => some .fTrig
  | _ => none

def FbKind.ilName : FbKind → String
  | ton => "TON"
  | tof => "TOF"
  | tp => "TP"
  | ctu => "CTU"
  | ctd => "CTD"
  | ctud => "CTUD"
  | sr => "SR"
  | rs => "RS"
  | rTrig => "R_TRIG"
  | fTrig => "F_TRIG"

/-- A block. Pins and targets are in the order of a `BTreeMap`. -/
structure FbBlock where
  name : List Char
  kind : FbKind
  inputs : List (List Char × List Char)
  outputs : List (List Char × List Char)
  deriving DecidableEq

/-! ## The parser -/

def tokenize (source : List Char) : List (List Char) :=
  ((lines source).map trim).filter fun l => !l.isEmpty && !startsWith [';'] l && !startsWith ['/', '/'] l

def parseAssignment (line : List Char) : Option (List Char × List Char) :=
  (splitOnce [':', '='] line).map fun (l, r) => (trim l, trim r)

def splitDot (s : List Char) : Option (List Char × List Char) := splitOnce ['.'] s

/-- `blocks.iter_mut().find(..)`, with what is then done to the block. -/
def updateBlock (name : List Char) (f : FbBlock → FbBlock) : List FbBlock → Option (List FbBlock)
  | [] => none
  | b :: rest => if b.name = name then some (f b :: rest) else (updateBlock name f rest).map (b :: ·)

/-- What `parse_blocks` has read so far. -/
structure Wiring where
  blocks : List FbBlock
  outputs : List (List Char × List Char)

/-- A `BLOCK` statement, without the keyword. -/
def Wiring.block (w : Wiring) (line rest : List Char) : Except String Wiring :=
  match splitWhitespace rest with
  | name :: kindStr :: _ =>
    match FbKind.fromStr (String.ofList kindStr) with
    | none => .error ("unknown block kind: " ++ String.ofList kindStr)
    | some kind =>
      if w.blocks.any fun b => b.name = name then .error ("duplicate block name: " ++ String.ofList name)
      else .ok { w with blocks := w.blocks ++ [⟨name, kind, [], []⟩] }
  | _ => .error ("malformed BLOCK statement: " ++ String.ofList line)

/-- A wiring statement. -/
def Wiring.assign (w : Wiring) (lhs rhs : List Char) : Except String Wiring :=
  match splitDot lhs with
  | some (blockName, pin) =>
    match updateBlock blockName (fun b => { b with inputs := insertKey pin rhs b.inputs }) w.blocks with
    | some blocks => .ok { w with blocks := blocks }
    | none => .error ("unknown block in wiring: " ++ String.ofList blockName)
  | none =>
    match splitDot rhs with
    | some (srcBlock, srcPin) =>
      if w.blocks.any fun b => b.name = lhs then
        .error ("invalid wiring: lhs '" ++ String.ofList lhs ++ "' is a block name, expected output variable")
      else if w.blocks.any fun b => b.name = srcBlock then
        .ok { w with outputs := w.outputs ++ [(lhs, srcBlock ++ '.' :: srcPin)] }
      else .error ("unknown block in output wiring: " ++ String.ofList srcBlock)
    | none => .ok { w with outputs := w.outputs ++ [(lhs, rhs)] }

/-- One line of `parse_blocks`. -/
def Wiring.line (w : Wiring) (line : List Char) : Except String Wiring :=
  let line := trimEnd line
  if line.isEmpty then .ok w
  else
    match stripPrefix "BLOCK ".toList line with
    | some rest => w.block line rest
    | none =>
      match parseAssignment line with
      | some (lhs, rhs) => w.assign lhs rhs
      | none => .error ("unrecognized statement: " ++ String.ofList line)

/-- An output goes to the block it comes from, if it is a pin of one. -/
def storeOutput (blocks : List FbBlock) (output : List Char × List Char) : List FbBlock :=
  match splitDot output.2 with
  | some (srcBlock, srcPin) =>
    (updateBlock srcBlock (fun b => { b with outputs := insertKey output.1 srcPin b.outputs }) blocks).getD blocks
  | none => blocks

def parseBlocks (lines : List (List Char)) : Except String (List FbBlock) := do
  let w ← lines.foldlM Wiring.line ⟨[], []⟩
  let blocks := w.outputs.foldl storeOutput w.blocks
  if blocks.isEmpty then .error "no function blocks found" else .ok blocks

/-! ## The generator -/

namespace FbBlock

def inputText (b : FbBlock) (input : List Char × List Char) : List Char :=
  "LD ".toList ++ input.2 ++ '\n' :: ("ST ".toList ++ b.name ++ '.' :: input.1 ++ ['\n'])

def text (b : FbBlock) : List Char :=
  "; BLOCK ".toList ++ b.name ++ ' ' :: b.kind.ilName.toList ++ '\n' ::
    (b.inputs.flatMap b.inputText ++ ("CAL ".toList ++ b.name ++ ['\n']))

def outputText (b : FbBlock) (output : List Char × List Char) : List Char :=
  '\n' :: ("; Output ".toList ++ output.1 ++ '\n' ::
    ("LD ".toList ++ b.name ++ '.' :: output.2 ++ '\n' :: ("ST ".toList ++ output.1 ++ ['\n'])))

end FbBlock

/-- The loop over the blocks. -/
def blocksText (blocks : List FbBlock) : List Char :=
  blocks.foldl (fun il b => (if il.isEmpty then il else il ++ ['\n']) ++ b.text) []

def generateIl (blocks : List FbBlock) : List Char :=
  trimEnd (blocksText blocks ++ blocks.flatMap fun b => b.outputs.flatMap b.outputText)

def fbdCompile (source : List Char) : Except String (List Char) := do
  let lines := tokenize source
  if lines.isEmpty then .error "empty FBD source"
  else
    let blocks ← parseBlocks lines
    .ok (generateIl blocks)

/-! ## No line feed in a name -/

structure FbBlock.OneLine (b : FbBlock) : Prop where
  word : IsWord b.name
  inputs : ∀ q ∈ b.inputs, '\n' ∉ q.1 ∧ '\n' ∉ q.2
  outputs : ∀ q ∈ b.outputs, '\n' ∉ q.1 ∧ '\n' ∉ q.2

theorem FbBlock.OneLine.name {b : FbBlock} (h : b.OneLine) : '\n' ∉ b.name := by
  intro hin
  have hspace := h.word.not_space _ hin
  cases hspace

structure Wiring.OneLine (w : Wiring) : Prop where
  blocks : ∀ b ∈ w.blocks, b.OneLine
  outputs : ∀ q ∈ w.outputs, '\n' ∉ q.1 ∧ '\n' ∉ q.2

theorem updateBlock_forall {p : FbBlock → Prop} {name : List Char} {f : FbBlock → FbBlock} {blocks blocks' : List FbBlock}
    (h : ∀ b ∈ blocks, p b) (hf : ∀ b, p b → p (f b)) (hupdate : updateBlock name f blocks = some blocks') :
    ∀ b ∈ blocks', p b := by
  induction blocks generalizing blocks' with
  | nil => cases hupdate
  | cons b rest ih =>
    have hb := h b mem_cons_self
    have hrest := fun b' hb' => h b' (mem_cons_of_mem _ hb')
    unfold updateBlock at hupdate
    split at hupdate
    · cases hupdate
      exact forall_mem_cons.2 ⟨hf b hb, hrest⟩
    · obtain ⟨rest', hrest', rfl⟩ := Option.map_eq_some_iff.1 hupdate
      exact forall_mem_cons.2 ⟨hb, ih hrest hrest'⟩

theorem parseAssignment_subset {line lhs rhs : List Char} (h : parseAssignment line = some (lhs, rhs)) :
    lhs ⊆ line ∧ rhs ⊆ line := by
  unfold parseAssignment at h
  obtain ⟨⟨l, r⟩, hsplit, heq⟩ := Option.map_eq_some_iff.1 h
  cases heq
  obtain ⟨hl, hr⟩ := splitOnce_subset hsplit
  exact ⟨List.Subset.trans (trim_subset l) hl, List.Subset.trans (trim_subset r) hr⟩

namespace Wiring

variable {w w' : Wiring} {l : List Char}

theorem OneLine.block (h : w.OneLine) {rest : List Char} (hblock : w.block l rest = .ok w') : w'.OneLine := by
  unfold Wiring.block at hblock
  split at hblock
  · rename_i name kindStr _ hwords
    have hname : IsWord name := isWord_of_mem (hwords ▸ mem_cons_self)
    split at hblock
    · cases hblock
    · split at hblock
      · cases hblock
      · cases hblock
        refine ⟨?_, h.outputs⟩
        intro b hb
        rcases mem_append.1 hb with hb | hb
        · exact h.blocks b hb
        · rw [mem_singleton.1 hb]
          exact ⟨hname, fun q hq => absurd hq not_mem_nil, fun q hq => absurd hq not_mem_nil⟩
  · cases hblock

theorem OneLine.assign (h : w.OneLine) {lhs rhs : List Char} (hlhs : '\n' ∉ lhs) (hrhs : '\n' ∉ rhs)
    (hassign : w.assign lhs rhs = .ok w') : w'.OneLine := by
  have hout : ∀ q : List Char × List Char, '\n' ∉ q.1 → '\n' ∉ q.2 →
      Wiring.OneLine { w with outputs := w.outputs ++ [q] } := by
    intro q h₁ h₂
    refine ⟨h.blocks, ?_⟩
    intro q' hq'
    rcases mem_append.1 hq' with hq' | hq'
    · exact h.outputs q' hq'
    · rw [mem_singleton.1 hq']
      exact ⟨h₁, h₂⟩
  unfold Wiring.assign at hassign
  split at hassign
  · rename_i blockName pin hdot
    have hpin : '\n' ∉ pin := fun hin => hlhs ((splitOnce_subset hdot).2 hin)
    split at hassign
    · rename_i blocks hupdate
      cases hassign
      refine ⟨updateBlock_forall h.blocks ?_ hupdate, h.outputs⟩
      intro b hb
      refine ⟨hb.word, ?_, hb.outputs⟩
      intro q hq
      rcases mem_insertKey hq with rfl | hq
      · exact ⟨hpin, hrhs⟩
      · exact hb.inputs q hq
    · cases hassign
  · split at hassign
    · rename_i srcBlock srcPin hdot
      split at hassign
      · cases hassign
      · split at hassign
        · cases hassign
          apply hout _ hlhs
          rw [splitOnce_eq hdot, List.append_assoc] at hrhs
          exact hrhs
        · cases hassign
    · cases hassign
      exact hout _ hlhs hrhs

theorem OneLine.line (h : w.OneLine) (hl : '\n' ∉ l) (hread : w.line l = .ok w') : w'.OneLine := by
  have htrim : '\n' ∉ trimEnd l := fun hin => hl (trimEnd_subset l hin)
  unfold Wiring.line at hread
  simp only at hread
  split at hread
  · cases hread
    exact h
  · split at hread
    · exact h.block hread
    · split at hread
      · rename_i lhs rhs hassign
        obtain ⟨hl, hr⟩ := parseAssignment_subset hassign
        exact h.assign (fun hin => htrim (hl hin)) (fun hin => htrim (hr hin)) hread
      · cases hread

theorem OneLine.lines {ls : List (List Char)} (h : w.OneLine) (hls : ∀ l ∈ ls, '\n' ∉ l)
    (hread : ls.foldlM Wiring.line w = .ok w') : w'.OneLine := by
  induction ls generalizing w with
  | nil =>
    cases hread
    exact h
  | cons l ls ih =>
    rw [foldlM_cons] at hread
    cases hl : w.line l with
    | error e =>
      rw [hl] at hread
      cases hread
    | ok w₁ =>
      rw [hl] at hread
      exact ih (h.line (hls l mem_cons_self) hl) (fun l' hl' => hls l' (mem_cons_of_mem _ hl')) hread

end Wiring

theorem storeOutput_oneLine (h : ∀ b ∈ blocks, b.OneLine) {output : List Char × List Char}
    (houtput : '\n' ∉ output.1 ∧ '\n' ∉ output.2) : ∀ b ∈ storeOutput blocks output, b.OneLine := by
  unfold storeOutput
  split
  · rename_i srcBlock srcPin hdot
    have hpin : '\n' ∉ srcPin := fun hin => houtput.2 ((splitOnce_subset hdot).2 hin)
    cases hupdate : updateBlock srcBlock (fun b => { b with outputs := insertKey output.1 srcPin b.outputs }) blocks with
    | none => exact h
    | some blocks' =>
      refine updateBlock_forall h ?_ hupdate
      intro b hb
      refine ⟨hb.word, hb.inputs, ?_⟩
      intro q hq
      rcases mem_insertKey hq with rfl | hq
      · exact ⟨houtput.1, hpin⟩
      · exact hb.outputs q hq
  · exact h

theorem parseBlocks_oneLine {ls : List (List Char)} (hls : ∀ l ∈ ls, '\n' ∉ l)
    (hparse : parseBlocks ls = .ok blocks) : blocks ≠ [] ∧ ∀ b ∈ blocks, b.OneLine := by
  unfold parseBlocks at hparse
  cases hread : ls.foldlM Wiring.line ⟨[], []⟩ with
  | error e =>
    rw [hread] at hparse
    cases hparse
  | ok w =>
    rw [hread] at hparse
    have hempty : Wiring.OneLine ⟨[], []⟩ :=
      ⟨fun b hb => absurd hb not_mem_nil, fun q hq => absurd hq not_mem_nil⟩
    have hw : w.OneLine := hempty.lines hls hread
    have hstored : ∀ (outputs : List (List Char × List Char)) (blocks : List FbBlock), (∀ q ∈ outputs, '\n' ∉ q.1 ∧ '\n' ∉ q.2) → (∀ b ∈ blocks, b.OneLine) →
        ∀ b ∈ outputs.foldl storeOutput blocks, b.OneLine := by
      intro outputs
      induction outputs with
      | nil => exact fun _ _ hblocks => hblocks
      | cons q outputs ih =>
        intro blocks hout hblocks
        exact ih _ (fun q' hq' => hout q' (mem_cons_of_mem _ hq'))
          (storeOutput_oneLine hblocks (hout q mem_cons_self))
    change (if (w.outputs.foldl storeOutput w.blocks).isEmpty = true then Except.error "no function blocks found"
      else Except.ok (w.outputs.foldl storeOutput w.blocks)) = Except.ok blocks at hparse
    split at hparse
    · cases hparse
    · rename_i hne
      cases hparse
      refine ⟨?_, hstored _ _ hw.outputs hw.blocks⟩
      intro hnil
      rw [hnil] at hne
      exact hne rfl

/-! ## The text, read back -/

namespace FbBlock

theorem inputText_closed (b : FbBlock) (q : List Char × List Char) : Closed (b.inputText q) := .feed _ (.line _)

theorem text_closed (b : FbBlock) : Closed b.text :=
  .feed _ ((Closed.flatMap fun q _ => b.inputText_closed q).append (.line _))

theorem outputText_closed (b : FbBlock) (q : List Char × List Char) : Closed (b.outputText q) :=
  .feed [] (.feed _ (.feed _ (.line _)))

end FbBlock

section
variable [CaseMap]

theorem readLine_cal (s : List Char) : readLine ("CAL ".toList ++ s) = [.call (readOperand s)] :=
  @readLine_mnemonic _ [] rfl "CAL" .cal rfl _ rfl s

namespace FbBlock

def inputStatements (b : FbBlock) (q : List Char × List Char) : List ILStatement :=
  [.load (readOperand q.2), .store (readOperand (b.name ++ '.' :: q.1))]

def callStatements (b : FbBlock) : List ILStatement :=
  b.inputs.flatMap b.inputStatements ++ [.call (readOperand b.name)]

def outputStatements (b : FbBlock) (q : List Char × List Char) : List ILStatement :=
  [.load (readOperand (b.name ++ '.' :: q.2)), .store (readOperand q.1)]

variable {b : FbBlock}

theorem statements_inputText (hname : '\n' ∉ b.name) {q : List Char × List Char} (hq : '\n' ∉ q.1 ∧ '\n' ∉ q.2) :
    statements (b.inputText q) = b.inputStatements q := by
  have hld : '\n' ∉ "LD ".toList ++ q.2 := by simp [hq.2]
  have hst : '\n' ∉ "ST ".toList ++ b.name ++ '.' :: q.1 := by simp [hname, hq.1]
  unfold inputText
  rw [statements_cons hld, statements_cons hst, List.append_assoc, readLine_ld, readLine_st]
  rfl

/-- The line that names the block is not read. -/
theorem statements_head (hname : '\n' ∉ b.name) (t : List Char) :
    statements ("; BLOCK ".toList ++ b.name ++ ' ' :: b.kind.ilName.toList ++ '\n' :: t) = statements t := by
  have hhead : '\n' ∉ "; BLOCK ".toList ++ b.name ++ ' ' :: b.kind.ilName.toList := by
    have hkind : '\n' ∉ b.kind.ilName.toList := by cases b.kind <;> decide
    simp [hname, hkind]
  rw [statements_cons hhead, List.append_assoc]
  show readLine (';' :: ' ' :: _) ++ _ = _
  rw [readLine_comment]
  rfl

theorem statements_text (h : b.OneLine) : statements b.text = b.callStatements := by
  have hcal : '\n' ∉ "CAL ".toList ++ b.name := by simp [h.name]
  have hinputs : statements (b.inputs.flatMap b.inputText) = b.inputs.flatMap b.inputStatements :=
    statements_flatMap (fun q _ => b.inputText_closed q) fun q hq => statements_inputText h.name (h.inputs q hq)
  unfold text
  rw [statements_head h.name, statements_append (.flatMap fun q _ => b.inputText_closed q), hinputs,
    statements_cons hcal, readLine_cal]
  rfl

theorem statements_outputText (hname : '\n' ∉ b.name) {q : List Char × List Char} (hq : '\n' ∉ q.1 ∧ '\n' ∉ q.2) :
    statements (b.outputText q) = b.outputStatements q := by
  have hhead : '\n' ∉ "; Output ".toList ++ q.1 := by simp [hq.1]
  have hld : '\n' ∉ "LD ".toList ++ b.name ++ '.' :: q.2 := by simp [hname, hq.2]
  have hst : '\n' ∉ "ST ".toList ++ q.1 := by simp [hq.1]
  unfold outputText
  have hblank : ∀ s, statements ('\n' :: s) = statements s := fun s => statements_feed [] s
  rw [hblank, statements_cons hhead, statements_cons hld, statements_cons hst, List.append_assoc, readLine_ld, readLine_st]
  show readLine (';' :: ' ' :: _) ++ _ = _
  rw [readLine_comment]
  rfl

end FbBlock

/-- A blank line between two blocks is not read. -/
theorem statements_separate {il : List Char} (h : Closed il) :
    Closed (if il.isEmpty then il else il ++ ['\n']) ∧
      statements (if il.isEmpty then il else il ++ ['\n']) = statements il := by
  split
  · exact ⟨h, rfl⟩
  · refine ⟨.line il, ?_⟩
    rw [statements_append h]
    exact List.append_nil _

theorem statements_blocksText (h : ∀ b ∈ blocks, b.OneLine) :
    Closed (blocksText blocks) ∧ statements (blocksText blocks) = blocks.flatMap FbBlock.callStatements := by
  unfold blocksText
  induction blocks using List.reverseRecOn with
  | nil => exact ⟨.nil, rfl⟩
  | append_singleton blocks b ih =>
    obtain ⟨hclosed, hread⟩ := ih fun b' hb' => h b' (mem_append_left _ hb')
    obtain ⟨hclosed', hread'⟩ := statements_separate hclosed
    rw [foldl_append, flatMap_append]
    refine ⟨hclosed'.append b.text_closed, ?_⟩
    show statements (_ ++ b.text) = _
    rw [statements_append hclosed', hread', hread, FbBlock.statements_text (h b (by simp)), flatMap_singleton]

/-- **The text** of the blocks is read as the code of each block, and then the outputs. -/
theorem statements_generateIl (h : ∀ b ∈ blocks, b.OneLine) : statements (generateIl blocks) =
      blocks.flatMap FbBlock.callStatements ++ blocks.flatMap fun b => b.outputs.flatMap b.outputStatements := by
  obtain ⟨hclosed, hread⟩ := statements_blocksText h
  unfold generateIl
  rw [statements_trimEnd, statements_append hclosed, hread]
  congr 1
  refine statements_flatMap ?_ ?_
  · intro b _
    exact .flatMap fun q _ => b.outputText_closed q
  · intro b hb
    refine statements_flatMap (fun q _ => b.outputText_closed q) ?_
    intro q hq
    exact FbBlock.statements_outputText (h b hb).name ((h b hb).outputs q hq)

end

/-- An accepted source has blocks, and the statements of its text are theirs. -/
theorem fbdCompile_ok {source il : List Char} (h : fbdCompile source = .ok il) :
    ∃ blocks, parseBlocks (tokenize source) = .ok blocks ∧ blocks ≠ [] ∧ (∀ b ∈ blocks, b.OneLine) ∧
      il = generateIl blocks := by
  have hls : ∀ l ∈ tokenize source, '\n' ∉ l := by
    intro l hl
    obtain ⟨raw, hraw, rfl⟩ := mem_map.1 (mem_filter.1 hl).1
    exact fun hin => not_feed_of_mem_lines hraw (trim_subset raw hin)
  unfold fbdCompile at h
  simp only at h
  split at h
  · cases h
  · cases hparse : parseBlocks (tokenize source) with
    | error e =>
      rw [hparse] at h
      cases h
    | ok blocks =>
      rw [hparse] at h
      cases h
      obtain ⟨hne, hone⟩ := parseBlocks_oneLine hls hparse
      exact ⟨blocks, rfl, hne, hone, rfl⟩

end Audesys.Fbd
