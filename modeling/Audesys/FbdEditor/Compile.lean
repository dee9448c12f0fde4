import Audesys.Fbd.Blocks
import Audesys.FbdEditor.Il
import Audesys.FbdEditor.Validate
import Audesys.Hal.Host

/-!
# `FbdEditor.Compile` — the editor's text and the compiler

`compile` gives the instruction list of the editor to `compileFbd`, which reads `BLOCK` statements and wirings. No
diagram of gates has a text that it accepts (`Gates.not_accepted`).
-/

open List

namespace Audesys.FbdEditor

open Audesys.Hal Audesys.Il Audesys.Lib

variable {graph : FbdGraph} {c : Char}
variable {node : BaseNode}

/-- An error. -/
structure CompileDiagnostic where
  message : String
  code : String
  deriving DecidableEq

structure CompileResult [Target] where
  success : Bool
  program : Option HalProgram
  diagnostics : List CompileDiagnostic

/-- `String(n).padStart(3, '0')`. -/
def padStart3 (n : Nat) : String :=
  let digits := (toString n).toList
  String.ofList (List.replicate (3 - digits.length) '0' ++ digits)

section

variable [Target] [CaseMap]

/-- `compile_fbd` of the bridge, with the message it throws; `none` is the panic of `il_compile`. -/
def compileFbd (source : String) : Option (Except String HalProgram) :=
  match Fbd.fbdCompile source.toList with
  | .error message => some (.error message)
  | .ok il => (ilCompile (String.ofList il)).map .ok

/-- `compile`; `none` is a panic, or the end of the fuel of a loop. -/
def compile (graph : FbdGraph) : Option CompileResult := do
  let validation ← validate graph
  if !validation.valid then
    let errors := validation.findings.filter (·.severity = .error)
    some ⟨false, none, errors.zipIdx.map fun p => ⟨p.1.message, "V" ++ padStart3 (p.2 + 1)⟩⟩
  else
    let ilResult ← convertGraphToIl graph
    match ← compileFbd ilResult.ilText with
    | .ok program => some ⟨true, some program, []⟩
    | .error message => some ⟨false, none, [⟨message, "E999"⟩]⟩

/-- The editor reports success. -/
def Succeeds (graph : FbdGraph) : Prop := ∃ result, compile graph = some result ∧ result.success = true

theorem text_of_succeeds (h : Succeeds graph) :
    ∃ ilResult il, convertGraphToIl graph = some ilResult ∧ Fbd.fbdCompile ilResult.ilText.toList = .ok il := by
  obtain ⟨result, hresult, hsuccess⟩ := h
  unfold compile at hresult
  cases hvalid : validate graph with
  | none =>
    rw [hvalid] at hresult
    cases hresult
  | some validation =>
    rw [hvalid, Option.bind_eq_bind, Option.bind_some] at hresult
    by_cases hrefused : (!validation.valid) = true
    · rw [if_pos hrefused, Option.some.injEq] at hresult
      rw [← hresult] at hsuccess
      cases hsuccess
    · rw [if_neg hrefused] at hresult
      cases hil : convertGraphToIl graph with
      | none =>
        rw [hil] at hresult
        cases hresult
      | some ilResult =>
        rw [hil, Option.bind_eq_bind, Option.bind_some] at hresult
        unfold compileFbd at hresult
        cases hfbd : Fbd.fbdCompile ilResult.ilText.toList with
        | error message =>
          rw [hfbd] at hresult
          dsimp only at hresult
          rw [Option.bind_eq_bind, Option.bind_some, Option.some.injEq] at hresult
          rw [← hresult] at hsuccess
          cases hsuccess
        | ok il => exact ⟨ilResult, il, rfl, hfbd⟩

end

/-! ## Lines that are no statements -/

theorem trim_cons (hc : isWhitespace c = false) (s : List Char) : trim (c :: s) = c :: trimEnd s := by
  unfold trim
  rw [dropWhile_cons_of_neg (Bool.eq_false_iff.1 hc)]
  have happend := trimEnd_append [c] s
  have hsingle : trimEnd [c] = [c] := by
    unfold trimEnd
    rw [rdropWhile_singleton, hc]
    rfl
  rw [hsingle] at happend
  refine Eq.trans happend ?_
  split
  · rename_i hnil
    rw [hnil]
  · rfl

theorem blockName_of_ne (hc : c ≠ 'B') (s : List Char) : Fbd.blockName (c :: s) = none := by
  have hfront : stripPrefix "BLOCK ".toList (c :: s) = none := by
    apply if_neg
    intro h
    obtain ⟨rest, heq⟩ := isPrefixOf_iff_prefix.1 h
    exact hc (List.cons.inj heq).1.symm
  unfold Fbd.blockName
  rw [hfront]

/-- The first letter of an instruction. -/
def IsLead (c : Char) : Prop := c ∈ ['L', 'S', 'A', 'O', 'X']

instance (c : Char) : Decidable (IsLead c) := inferInstanceAs (Decidable (c ∈ _))

theorem IsLead.not_space (h : IsLead c) : isWhitespace c = false := by
  have hall : (['L', 'S', 'A', 'O', 'X'].all fun c => isWhitespace c == false) = true := by decide
  exact beq_iff_eq.1 (all_eq_true.1 hall c h)

theorem IsLead.ne {c d : Char} (h : IsLead c) (hd : d ∉ ['L', 'S', 'A', 'O', 'X']) : c ≠ d := by
  rintro rfl
  exact hd h

theorem mem_splitOn_intercalate {ls : List (List Char)} {l : List Char} (hl : l ∈ ls) (h : '\n' ∉ l) :
    l ∈ (['\n'].intercalate ls).splitOn '\n' := by
  induction ls with
  | nil => cases hl
  | cons first ls ih =>
    cases ls with
    | nil =>
      rw [mem_singleton.1 hl] at h ⊢
      rw [intercalate_singleton, splitOn_eq_singleton h]
      exact mem_singleton_self _
    | cons second ls =>
      rw [intercalate_cons_cons, List.append_assoc, singleton_append, splitOn_append_cons_self,
        mem_append]
      rcases mem_cons.1 hl with rfl | hl
      · left
        rw [splitOn_eq_singleton h]
        exact mem_singleton_self _
      · exact Or.inr (ih hl)

/-- An instruction without a colon is refused. -/
theorem not_accepted {ls : List (List Char)} {s : List Char} (hl : c :: s ∈ ls) (hc : IsLead c)
    (hfeed : '\n' ∉ s) (hcolon : ':' ∉ s) (il : List Char) : Fbd.fbdCompile (['\n'].intercalate ls) ≠ .ok il := by
  intro h
  have hline : '\n' ∉ c :: s := by
    rw [mem_cons, not_or]
    exact ⟨(hc.ne (by decide)).symm, hfeed⟩
  have htrim := trim_cons hc.not_space s
  obtain ⟨_, _, hwiring⟩ := Fbd.fbdCompile_headers h
  have hmem : c :: trimEnd s ∈ Fbd.tokenize (['\n'].intercalate ls) := by
    rw [← htrim]
    apply Fbd.mem_tokenize (mem_splitOn_intercalate hl hline)
    rw [htrim]
    have hsemicolon : (';' == c) = false := beq_eq_false_iff_ne.2 (hc.ne (by decide)).symm
    have hslash : ('/' == c) = false := beq_eq_false_iff_ne.2 (hc.ne (by decide)).symm
    show (!false && !(';' == c && _) && !('/' == c && _)) = true
    rw [hsemicolon, hslash]
    rfl
  have hinfix := hwiring _ hmem (blockName_of_ne (hc.ne (by decide)) _)
  have hin : ':' ∈ c :: trimEnd s := hinfix.subset (mem_cons_self ..)
  rcases mem_cons.1 hin with heq | hin
  · exact hc.ne (by decide) heq.symm
  · exact hcolon (trimEnd_subset s hin)

/-! ## Comments behind a `BLOCK` statement -/

theorem splitWhitespace_concat (s : List Char) (hc : isWhitespace c = true) :
    splitWhitespace (s ++ [c]) = splitWhitespace s := by
  unfold splitWhitespace
  rw [splitOnP_append_cons s [] hc, splitOnP_nil, filter_append]
  exact List.append_nil _

theorem splitWhitespace_trimEnd (s : List Char) : splitWhitespace (trimEnd s) = splitWhitespace s := by
  induction s using List.reverseRecOn with
  | nil => rfl
  | append_singleton s c ih =>
    unfold trimEnd at ih ⊢
    by_cases hc : isWhitespace c = true
    · rw [rdropWhile_concat_pos _ _ _ hc, ih, splitWhitespace_concat s hc]
    · rw [rdropWhile_concat_neg _ _ _ hc]

/-- A comment behind a statement is one more word. -/
theorem splitWhitespace_comment (s : List Char) :
    splitWhitespace (s ++ " *)".toList) = splitWhitespace s ++ ["*)".toList] := by
  have hcomment : " *)".toList = ' ' :: "*)".toList := by decide
  unfold splitWhitespace
  rw [hcomment, splitOnP_append_cons s _ (by decide), filter_append]
  congr 1

theorem blockName_comment (s : List Char) : Fbd.blockName (trim (s ++ " *)".toList)) = Fbd.blockName (trim s) := by
  have hcomment : trimEnd " *)".toList = " *)".toList := by decide
  unfold trim
  rw [List.dropWhile_append]
  by_cases hempty : (s.dropWhile isWhitespace).isEmpty = true
  · rw [if_pos hempty, isEmpty_iff.1 hempty]
    decide
  · rw [if_neg hempty]
    generalize s.dropWhile isWhitespace = t
    have hkept : (t ++ " *)".toList).rdropWhile isWhitespace = t ++ " *)".toList := by
      refine (trimEnd_append t " *)".toList).trans ?_
      rw [hcomment]
      exact if_neg (by decide)
    rw [hkept]
    by_cases hfront : "BLOCK ".toList <+: t
    · obtain ⟨u, rfl⟩ := hfront
      have hleft : stripPrefix "BLOCK ".toList ("BLOCK ".toList ++ u ++ " *)".toList) = some (u ++ " *)".toList) := rfl
      have hright : trimEnd ("BLOCK ".toList ++ u) =
          if trimEnd u = [] then "BLOCK".toList else "BLOCK ".toList ++ trimEnd u := trimEnd_append _ u
      unfold Fbd.blockName
      rw [hleft]
      dsimp only
      rw [splitWhitespace_comment]
      have htrim : ("BLOCK ".toList ++ u).rdropWhile isWhitespace = trimEnd ("BLOCK ".toList ++ u) := rfl
      rw [htrim, hright]
      by_cases hnil : trimEnd u = []
      · have hwords : splitWhitespace u = [] := by
          rw [← splitWhitespace_trimEnd, hnil]
          rfl
        rw [if_pos hnil, hwords]
        rfl
      · have hstrip : stripPrefix "BLOCK ".toList ("BLOCK ".toList ++ trimEnd u) = some (trimEnd u) := rfl
        rw [if_neg hnil, hstrip]
        dsimp only
        rw [splitWhitespace_trimEnd]
        -- a comment is no kind of block
        rcases splitWhitespace u with _ | ⟨name, _ | ⟨kindStr, rest⟩⟩
        · rfl
        · rfl
        · rfl
    · have hright : Fbd.blockName (t.rdropWhile isWhitespace) = none := by
        unfold Fbd.blockName stripPrefix
        rw [if_neg]
        intro h
        exact hfront ((List.isPrefixOf_iff_prefix.1 h).trans (List.rdropWhile_prefix _ _))
      rw [hright]
      by_cases hlong : "BLOCK ".toList <+: t ++ " *)".toList
      · have hshort : t <+: "BLOCK ".toList :=
          (List.prefix_or_prefix_of_prefix (prefix_append t _) hlong).resolve_right hfront
        have hall : ∀ t ∈ "BLOCK ".toList.inits, Fbd.blockName (t ++ " *)".toList) = none := by decide
        exact hall t ((mem_inits t _).2 hshort)
      · unfold Fbd.blockName stripPrefix
        rw [if_neg]
        exact fun h => hlong (List.isPrefixOf_iff_prefix.1 h)

/-- A comment at the end of a text changes no name. -/
theorem headers_comment (s : List Char) : Fbd.headers (s ++ " *)".toList) = Fbd.headers s := by
  have hline : ∀ l : List Char, '\n' ∉ l → Fbd.headers (l ++ " *)".toList) = Fbd.headers l := by
    intro l hl
    have hcomment : '\n' ∉ l ++ " *)".toList := by
      rw [mem_append, not_or]
      exact ⟨hl, by decide⟩
    rw [Fbd.headers_line hcomment, Fbd.headers_line hl, blockName_comment]
  generalize hlen : s.length = n
  induction n using Nat.strong_induction_on generalizing s with
  | h n ih =>
    by_cases hfeed : '\n' ∈ s
    · obtain ⟨front, back, rfl, hfront⟩ := eq_append_cons_of_mem hfeed
      rw [length_append, length_cons] at hlen
      rw [List.append_assoc, cons_append, Fbd.headers_append, Fbd.headers_append, ih back.length (by omega) back rfl]
    · exact hline s hfeed

/-- The names in the lines behind the first one. -/
def followers (s : List Char) : List (List Char) :=
  match s.dropWhile (· ≠ '\n') with
  | [] => []
  | _ :: rest => Fbd.headers rest

/-- An instruction gives no name; the lines behind it do. -/
theorem headers_instruction (hc : IsLead c) {s : List Char} (hs : '\n' ∉ s) (id : List Char) :
    Fbd.headers (c :: (s ++ id)) = followers id := by
  have hline : ∀ l : List Char, '\n' ∉ l → Fbd.headers (c :: l) = [] := by
    intro l hl
    have hfeed : '\n' ∉ c :: l := by
      rw [mem_cons, not_or]
      exact ⟨(hc.ne (by decide)).symm, hl⟩
    rw [Fbd.headers_line hfeed, trim_cons hc.not_space, blockName_of_ne (hc.ne (by decide))]
    rfl
  unfold followers
  by_cases hfeed : '\n' ∈ id
  · obtain ⟨front, back, rfl, hfront⟩ := eq_append_cons_of_mem hfeed
    have hplain : ∀ d ∈ front, decide (d ≠ '\n') = true := by
      intro d hd
      apply decide_eq_true
      rintro rfl
      exact hfront hd
    rw [dropWhile_append_of_pos hplain, dropWhile_cons_of_neg (by decide), ← List.append_assoc,
      ← cons_append, Fbd.headers_append, hline, nil_append]
    rw [mem_append, not_or]
    exact ⟨hs, hfront⟩
  · have hplain : ∀ d ∈ id, decide (d ≠ '\n') = true := by
      intro d hd
      apply decide_eq_true
      rintro rfl
      exact hfeed hd
    rw [dropWhile_eq_nil_iff.2 hplain]
    apply hline
    rw [mem_append, not_or]
    exact ⟨hs, hfeed⟩

/-! ## The lines of gates -/

/-- A name without line feeds and colons, as all pins have that `createGate` makes. -/
def PlainName (s : String) : Prop := '\n' ∉ s.toList ∧ ':' ∉ s.toList

instance (s : String) : Decidable (PlainName s) := inferInstanceAs (Decidable (_ ∧ _))

theorem PlainName.append {s t : String} (hs : PlainName s) (ht : PlainName t) : PlainName (s ++ t) := by
  unfold PlainName
  rw [String.toList_append, mem_append, mem_append, not_or, not_or]
  exact ⟨⟨hs.1, ht.1⟩, hs.2, ht.2⟩

theorem plainName_toString (n : Nat) : PlainName (toString n) := by
  constructor
  · exact fun h => absurd (Editor.isDigit_of_mem_toString h) (by decide)
  · exact fun h => absurd (Editor.isDigit_of_mem_toString h) (by decide)

/-- A diagram of gates. -/
structure Gates (graph : FbdGraph) : Prop where
  kind : ∀ node ∈ graph.nodes, ∃ gateType, node.kind = .gate gateType
  pins : ∀ node ∈ graph.nodes, ∀ pin ∈ node.inputPorts ++ node.outputPorts, PlainName pin.name

theorem plainName_createGate (id : String) (gateType : GateType) (position : Point) :
    ∀ pin ∈ (createGate id gateType position).inputPorts ++ (createGate id gateType position).outputPorts,
      PlainName pin.name := by
  have hinputs : ∀ name ∈ getDefaultInputPinNames gateType, PlainName name := by
    cases gateType <;> decide
  intro pin hpin
  rcases mem_append.1 hpin with hin | hout
  · obtain ⟨name, hname, rfl⟩ := mem_map.1 hin
    exact hinputs name hname
  · rw [mem_singleton.1 hout]
    decide

namespace Gates

open FbdGraph


theorem mem_of_nodeById {nodeId : String} (h : graph.nodeById nodeId = some node) : node ∈ graph.nodes := by
  obtain ⟨node', hnode', heq⟩ := mem_map.1 (mem_of_setAll h)
  cases heq
  exact hnode'

theorem plain_wireName (h : Gates graph) (e : BaseEdge) (k : Nat) : PlainName (graph.wireName e k) := by
  unfold wireName
  cases hnode : graph.nodeById e.sourceId with
  | none =>
    have htmp : PlainName "tmp_" := by decide
    exact htmp.append (plainName_toString k)
  | some node =>
    rw [Option.bind_some]
    cases hpin : findPin node e.sourcePortName with
    | none =>
      have htmp : PlainName "tmp_" := by decide
      exact htmp.append (plainName_toString k)
    | some pin =>
      have htmp : PlainName "tmp_" := by decide
      have hname := h.pins node (mem_of_nodeById hnode) pin (mem_of_find?_eq_some hpin)
      have hunderscore : PlainName "_" := by decide
      exact ((htmp.append hname).append hunderscore).append (plainName_toString k)

theorem plain_wireLabels (h : Gates graph) {id name : String} (hlabel : graph.wireLabels id = some name) :
    PlainName name := by
  obtain ⟨p, _, heq⟩ := mem_map.1 (mem_of_setAll hlabel)
  rw [← (Prod.mk.inj heq).2]
  exact h.plain_wireName p.1 p.2

theorem plain_inputValue (h : Gates graph) (node : BaseNode) (pin : Pin) :
    PlainName (graph.inputValue node "FALSE" pin) := by
  have hfalse : PlainName "FALSE" := by decide
  unfold inputValue
  split
  · rename_i edge _
    cases hlabel : graph.wireLabels edge.id with
    | none => exact hfalse
    | some name => exact h.plain_wireLabels hlabel
  · exact hfalse

/-- The operands of a gate. -/
theorem plain_operandAt (h : Gates graph) (node : BaseNode) (i : Nat) :
    PlainName (operandAt (node.inputPorts.map (graph.inputValue node "FALSE")) i) := by
  unfold operandAt
  rw [getElem?_map]
  cases node.inputPorts[i]? with
  | none =>
    have hundefined : PlainName "undefined" := by decide
    exact hundefined
  | some pin => exact h.plain_inputValue node pin

/-- The variable of a gate with a wire out of it. -/
theorem plain_outLabel (h : Gates graph) {nodeId : String} {e : BaseEdge}
    (hout : graph.findOutgoingEdge nodeId = some e) : PlainName (graph.outLabel nodeId) := by
  unfold outLabel
  rw [hout]
  dsimp only
  have hkey : e.id ∈ (graph.edges.zipIdx.map fun p => (p.1.id, graph.wireName p.1 p.2)).map Prod.fst := by
    obtain ⟨k, hk⟩ := mem_iff_getElem?.1 (mem_of_find?_eq_some hout)
    rw [map_map]
    exact mem_map.2 ⟨(e, k), mk_mem_zipIdx_iff_getElem?.2 hk, rfl⟩
  obtain ⟨name, hname⟩ := exists_setAll hkey
  have hlabel : graph.wireLabels e.id = some name := hname
  rw [hlabel]
  exact h.plain_wireLabels hlabel

end Gates

/-- An instruction without a line feed and a colon. -/
def PlainLine (line : IlLine) : Prop :=
  ∃ c s, line.render.toList = c :: s ∧ IsLead c ∧ '\n' ∉ s ∧ ':' ∉ s

/-- The words that instructions with one operand start with. -/
def mnemonics : List String := ["LD  ", "AND ", "OR  ", "XOR ", "ST  "]

theorem plainLine_of {line : IlLine} {mnemonic operand : String} (hmnemonic : mnemonic ∈ mnemonics)
    (hrender : line.render = mnemonic ++ operand) (hoperand : PlainName operand) : PlainLine line := by
  have hall : ∀ m ∈ mnemonics, m.toList = m.toList.headD ' ' :: m.toList.tail ∧ IsLead (m.toList.headD ' ') ∧
      '\n' ∉ m.toList.tail ∧ ':' ∉ m.toList.tail := by decide
  obtain ⟨hsplit, hlead, hfeed, hcolon⟩ := hall mnemonic hmnemonic
  refine ⟨mnemonic.toList.headD ' ', mnemonic.toList.tail ++ operand.toList, ?_, hlead, ?_, ?_⟩
  · rw [hrender, String.toList_append, ← cons_append, ← hsplit]
  · rw [mem_append, not_or]
    exact ⟨hfeed, hoperand.1⟩
  · rw [mem_append, not_or]
    exact ⟨hcolon, hoperand.2⟩

theorem plainLine_ld {operand : String} (h : PlainName operand) : PlainLine (.ld operand none) := by
  have hmnemonic : "LD  " ∈ mnemonics := by decide
  exact plainLine_of hmnemonic (String.append_empty ..) h

/-- The lines of an `AND` or `OR` have one without a comment. -/
theorem plainLine_chain {op : String → IlLine} (mnemonic : String) (hmnemonic : mnemonic ∈ mnemonics)
    (hrender : ∀ x, (op x).render = mnemonic ++ x) (name nodeId : String) {inputs : List String}
    (hinputs : ∀ i, PlainName (operandAt inputs i)) : ∃ line ∈ chainLines name nodeId op inputs, PlainLine line := by
  unfold chainLines
  split
  · exact ⟨_, mem_cons_of_mem _ (mem_singleton_self _), plainLine_of hmnemonic (hrender _) (hinputs 1)⟩
  · exact ⟨_, mem_cons_self .., plainLine_ld (hinputs 0)⟩

/-- A gate other than a `NOT` without wires out of it has an instruction that is refused. -/
theorem Gates.plainLine (h : Gates graph) {gateType : GateType}
    (hother : gateType ≠ .not ∨ (graph.findOutgoingEdge node.id).isSome = true) :
    ∃ line ∈ (emitGateNode graph node gateType).lines, PlainLine line := by
  have hinputs := h.plain_operandAt node
  have hvalue : (∃ line ∈ valueLines node.id (node.inputPorts.map (graph.inputValue node "FALSE")) gateType,
      PlainLine line) → ∃ line ∈ (emitGateNode graph node gateType).lines, PlainLine line := by
    rintro ⟨line, hline, hplain⟩
    exact ⟨line, mem_append_left _ hline, hplain⟩
  rcases hother with hother | hout
  · apply hvalue
    cases gateType with
    | not => exact absurd rfl hother
    | and => exact plainLine_chain "AND " (by decide) (fun _ => rfl) _ _ hinputs
    | or => exact plainLine_chain "OR  " (by decide) (fun _ => rfl) _ _ hinputs
    | xor =>
      have hmnemonic : "XOR " ∈ mnemonics := by decide
      exact ⟨_, mem_cons_of_mem _ (mem_singleton_self _), plainLine_of hmnemonic rfl (hinputs 1)⟩
    | mux => exact ⟨_, mem_cons_of_mem _ (mem_cons_of_mem _ (mem_cons_self ..)), plainLine_ld (hinputs 1)⟩
  · obtain ⟨e, he⟩ := Option.isSome_iff_exists.1 hout
    have hmnemonic : "ST  " ∈ mnemonics := by decide
    exact ⟨_, mem_append_right _ (mem_singleton_self _), plainLine_of hmnemonic rfl (h.plain_outLabel he)⟩

/-- The names in the lines of a `NOT` without wires out of it: those in its id, twice. -/
theorem headers_not (h : Gates graph) (hout : graph.findOutgoingEdge node.id = none) :
    ((emitGateNode graph node .not).lines.flatMap fun line => Fbd.headers line.render.toList) =
      followers node.id.toList ++ followers node.id.toList := by
  obtain ⟨hfeed, _⟩ := h.plain_operandAt node 0
  have hlabel : graph.outLabel node.id = FbdGraph.gateOut node.id := by
    unfold FbdGraph.outLabel
    rw [hout]
  have hlines : (emitGateNode graph node .not).lines =
      [.ldn (operandAt (node.inputPorts.map (graph.inputValue node "FALSE")) 0) (some ("NOT " ++ node.id)),
        .st (graph.outLabel node.id)] := rfl
  rw [hlines, flatMap_cons, flatMap_singleton, hlabel]
  generalize operandAt (node.inputPorts.map (graph.inputValue node "FALSE")) 0 = x at hfeed
  congr 1
  · have htext : (IlLine.render (.ldn x (some ("NOT " ++ node.id)))).toList =
        'L' :: ("DN ".toList ++ x.toList ++ "  (* NOT ".toList ++ node.id.toList) ++ " *)".toList := by
      show ("LDN " ++ x ++ ("  (* " ++ ("NOT " ++ node.id) ++ " *)")).toList = _
      simp only [String.toList_append, List.append_assoc, cons_append]
      rfl
    rw [htext, headers_comment]
    apply headers_instruction (by decide)
    rw [mem_append, mem_append, not_or, not_or]
    exact ⟨⟨by decide, hfeed⟩, by decide⟩
  · have htext : (IlLine.render (.st (FbdGraph.gateOut node.id))).toList =
        'S' :: ("T  gate_out_".toList ++ node.id.toList) := by
      show ("ST  " ++ ("gate_out_" ++ node.id)).toList = _
      simp only [String.toList_append]
      rfl
    rw [htext]
    exact headers_instruction (by decide) (by decide) _

/-- **The texts of gates** are not what the compiler reads. -/
theorem Gates.not_accepted (h : Gates graph) {ilResult : IlGenerationResult}
    (hil : convertGraphToIl graph = some ilResult) (il : List Char) :
    Fbd.fbdCompile ilResult.ilText.toList ≠ .ok il := by
  obtain ⟨ids, _, rfl⟩ := Option.map_eq_some_iff.1 hil
  have hnodes : ∀ node ∈ ids.filterMap graph.nodeById, node ∈ graph.nodes := by
    intro node hnode
    obtain ⟨id, _, hid⟩ := mem_filterMap.1 hnode
    exact Gates.mem_of_nodeById hid
  generalize ids.filterMap graph.nodeById = sorted at hnodes
  unfold IlGenerationResult.ilText
  dsimp only
  rw [String.toList_intercalate, map_map]
  intro hok
  by_cases hplain : ∃ line ∈ sorted.flatMap fun node => (emitNode graph node).lines, PlainLine line
  · obtain ⟨line, hline, c, s, hrender, hlead, hfeed, hcolon⟩ := hplain
    have hmem : c :: s ∈ (sorted.flatMap fun node => (emitNode graph node).lines).map
        (String.toList ∘ IlLine.render) := mem_map.2 ⟨line, hline, hrender⟩
    exact FbdEditor.not_accepted hmem hlead hfeed hcolon il hok
  · -- only gates are left whose names stand in the text twice
    have hheaders : Fbd.headers (['\n'].intercalate ((sorted.flatMap fun node => (emitNode graph node).lines).map
        (String.toList ∘ IlLine.render))) =
          sorted.flatMap fun node => followers node.id.toList ++ followers node.id.toList := by
      rw [Fbd.headers_intercalate, flatMap_map, flatMap_assoc]
      apply flatMap_congr
      intro node hnode
      obtain ⟨gateType, hkind⟩ := h.kind node (hnodes node hnode)
      have hemit : emitNode graph node = emitGateNode graph node gateType := by
        unfold emitNode
        rw [hkind]
      have halone : ¬ (gateType ≠ .not ∨ (graph.findOutgoingEdge node.id).isSome = true) := by
        intro hother
        obtain ⟨line, hline, hplainLine⟩ := h.plainLine hother
        apply hplain
        refine ⟨line, mem_flatMap.2 ⟨node, hnode, ?_⟩, hplainLine⟩
        rw [hemit]
        exact hline
      rw [not_or, not_not, Bool.not_eq_true, Option.isSome_eq_false_iff, Option.isNone_iff_eq_none] at halone
      rw [hemit, halone.1]
      exact headers_not h halone.2
    obtain ⟨hne, hnodup, _⟩ := Fbd.fbdCompile_headers hok
    have hfeed : "\n".toList = ['\n'] := rfl
    rw [hfeed, hheaders] at hne hnodup
    apply hne
    rw [flatMap_eq_nil_iff]
    intro node hnode
    have hown := (nodup_flatMap.1 hnodup).1 node hnode
    cases hnames : followers node.id.toList with
    | nil => rfl
    | cons name names =>
      rw [hnames, nodup_append] at hown
      exact absurd rfl (hown.2.2 name (mem_cons_self ..) name (mem_cons_self ..))

/-- **The editor does not compile gates.** -/
theorem not_succeeds [Target] [CaseMap] {graph : FbdGraph} (h : Gates graph) : ¬ Succeeds graph := by
  intro hsucceeds
  obtain ⟨ilResult, il, hil, hok⟩ := text_of_succeeds hsucceeds
  exact h.not_accepted hil il hok

end Audesys.FbdEditor

/-! ## One gate -/

namespace Audesys.FbdEditor

open Audesys.Hal Audesys.Lib

local instance asciiCompile : CaseMap := .ascii
local instance hostCompile : Target := host false

/-- An `AND` without wires. -/
def oneGate : FbdGraph := ⟨"graph", [createGate "gate-1" .and ⟨0, 0⟩], []⟩

theorem gates_oneGate : Gates oneGate where
  kind := by
    intro node hnode
    rw [mem_singleton.1 hnode]
    exact ⟨.and, rfl⟩
  pins := by
    intro node hnode
    rw [mem_singleton.1 hnode]
    exact plainName_createGate _ _ _

/-- The gate is not compiled. -/
theorem not_succeeds_oneGate : ¬ Succeeds oneGate := not_succeeds gates_oneGate

/-- Although it is valid. -/
theorem oneGate_refused : oneGate.nodes ≠ [] ∧ (validate oneGate).map (·.valid) = some true ∧ ¬ Succeeds oneGate := by
  refine ⟨cons_ne_nil _ _, by decide +kernel, ?_⟩
  intro hsucceeds
  obtain ⟨ilResult, il, hil, hok⟩ := text_of_succeeds hsucceeds
  exact gates_oneGate.not_accepted hil il hok

end Audesys.FbdEditor
