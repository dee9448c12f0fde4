import Audesys.FbdEditor.Ids

/-!
# `FbdEditor.Wiring` — wires end at pins

A graph is well wired when its wires start at outputs and end at inputs that exist, with no two at one input. Two
operations can break this: a second wire to a pin, and a gate that loses a wired input with its old type
(`wellWired_iff`).
-/

open List

namespace Audesys.FbdEditor

open Audesys.Lib Audesys.Editor

namespace PinDirection

variable {nodeId : String} {node : BaseNode}
variable {name : String}

/-- A wire may start here. -/
def drives : PinDirection → Bool
  | output | bidi => true
  | input => false

/-- A wire may end here. -/
def reads : PinDirection → Bool
  | input | bidi => true
  | output => false

end PinDirection

namespace FbdGraph

/-- The node exists and has the pin, with an allowed direction. -/
def HasPin (graph : FbdGraph) (allowed : PinDirection → Bool) (nodeId portName : String) : Prop :=
  ∃ node pin, graph.findNode nodeId = some node ∧ findPin node portName = some pin ∧ allowed pin.direction = true

/-- Every wire starts at an output and ends at an input, and no input has two wires. -/
structure WellWired (graph : FbdGraph) : Prop where
  sources : ∀ e ∈ graph.edges, graph.HasPin PinDirection.drives e.sourceId e.sourcePortName
  targets : ∀ e ∈ graph.edges, graph.HasPin PinDirection.reads e.targetId e.targetPortName
  single : (graph.edges.map fun e => (e.targetId, e.targetPortName)).Nodup

/-! ## Looking up nodes -/

theorem findNode_append {graph : FbdGraph} (h : graph.findNode nodeId = some node)
    (new : BaseNode) : { graph with nodes := graph.nodes ++ [new] }.findNode nodeId = some node := by
  unfold findNode at h ⊢
  rw [find?_append, h]
  rfl

theorem findNode_filter {graph : FbdGraph} {nodeId elementId : String} (h : nodeId ≠ elementId)
    (edges : List BaseEdge) :
    (⟨graph.id, graph.nodes.filter fun n => n.id != elementId, edges⟩ : FbdGraph).findNode nodeId =
      graph.findNode nodeId := by
  unfold findNode
  rw [find?_filter]
  congr 1
  funext n
  by_cases hn : n.id = nodeId
  · rw [hn, beq_self_eq_true, bne_iff_ne.2 h]
    rfl
  · rw [beq_eq_false_iff_ne.2 hn]
    exact decide_eq_false fun h => Bool.false_ne_true h.2

theorem findNode_setNode {graph : FbdGraph} {old node : BaseNode}
    (h : graph.findNode nodeId = some old) (hid : node.id = nodeId) :
    (graph.setNode nodeId node).findNode nodeId = some node := by
  unfold findNode setNode at *
  rw [find?_updateFirst, h]
  · rfl
  · exact fun _ _ => beq_iff_eq.2 hid

theorem findNode_setNode_of_ne {graph : FbdGraph} {nodeId id : String} (hid : node.id = nodeId)
    (hne : id ≠ nodeId) : (graph.setNode nodeId node).findNode id = graph.findNode id := by
  unfold findNode setNode
  apply find?_updateFirst_of_not
  intro n hn
  rw [beq_iff_eq] at hn
  rw [beq_iff_eq, beq_iff_eq, hn, hid]
  exact ⟨hne.symm, hne.symm⟩

end FbdGraph

/-! ## The direction of a pin is in its name -/

/-- The names of the pins of a node. -/
def BaseNode.pinNames (node : BaseNode) : List String := (node.inputPorts ++ node.outputPorts).map (·.name)

/-- The direction that pins with the name have. -/
def namedDirection (name : String) : PinDirection := if isOutputName name then .output else .input

/-- No pin name is used on both sides, and gates have one output. -/
structure BaseNode.Typed (node : BaseNode) : Prop where
  pins : FbDef.Typed ⟨node.inputPorts, node.outputPorts⟩
  gate : ∀ gateType, node.kind = .gate gateType → ∀ pin ∈ node.outputPorts, pin.name = "OUT"

theorem findPin_name {pin : Pin} (h : findPin node name = some pin) :
    pin.name = name ∧ pin ∈ node.inputPorts ++ node.outputPorts := by
  refine ⟨?_, mem_of_find?_eq_some h⟩
  have hname : (pin.name == name) = true := find?_some (p := fun pin : Pin => pin.name == name) h
  exact beq_iff_eq.1 hname

theorem mem_pinNames : name ∈ node.pinNames ↔ ∃ pin, findPin node name = some pin := by
  constructor
  · intro h
    obtain ⟨pin, hpin, hname⟩ := mem_map.1 h
    apply Option.isSome_iff_exists.1
    exact find?_isSome.2 ⟨pin, hpin, beq_iff_eq.2 hname⟩
  · rintro ⟨pin, hpin⟩
    obtain ⟨hname, hmem⟩ := findPin_name hpin
    exact mem_map.2 ⟨pin, hmem, hname⟩

namespace BaseNode.Typed

variable {node : BaseNode}

theorem direction (h : node.Typed) {pin : Pin} (hfind : findPin node name = some pin) :
    pin.direction = namedDirection name := by
  obtain ⟨rfl, hmem⟩ := findPin_name hfind
  unfold namedDirection
  rcases mem_append.1 hmem with hin | hout
  · rw [(h.pins.inputs pin hin).1, (h.pins.inputs pin hin).2]
    rfl
  · rw [(h.pins.outputs pin hout).1, (h.pins.outputs pin hout).2]
    rfl

/-- The only pin of a gate with the name of an output is `OUT`. -/
theorem gate_output (h : node.Typed) {gateType : GateType} (hkind : node.kind = .gate gateType)
    (hname : name ∈ node.pinNames) (hdrives : (namedDirection name).drives = true) : name = "OUT" := by
  obtain ⟨pin, hpin, rfl⟩ := mem_map.1 hname
  rcases mem_append.1 hpin with hin | hout
  · unfold namedDirection at hdrives
    rw [(h.pins.inputs pin hin).2] at hdrives
    cases hdrives
  · exact h.gate gateType hkind pin hout

end BaseNode.Typed

theorem typed_createGate (id : String) (gateType : GateType) (position : Point) :
    (createGate id gateType position).Typed := by
  refine ⟨⟨?_, ?_⟩, ?_⟩
  · intro pin hpin
    obtain ⟨name, hname, rfl⟩ := mem_map.1 hpin
    refine ⟨rfl, ?_⟩
    have hplain : ∀ name ∈ getDefaultInputPinNames gateType, isOutputName name = false := by
      cases gateType <;> decide
    exact hplain name hname
  · intro pin hpin
    rw [mem_singleton.1 hpin]
    exact ⟨rfl, by decide⟩
  · intro _ _ pin hpin
    rw [mem_singleton.1 hpin]
    rfl

theorem typed_createFbWithPins [CaseMap] (id fbType : String) (position : Point) :
    (createFbWithPins id fbType position).Typed := by
  refine ⟨?_, ?_⟩
  · exact typed_getFbDef fbType
  · intro gateType hkind
    cases hkind

theorem out_mem_createGate (id : String) (gateType : GateType) (position : Point) :
    "OUT" ∈ (createGate id gateType position).pinNames :=
  mem_map.2 ⟨outputPin "OUT" "BOOL", mem_append_right _ (mem_singleton_self _), rfl⟩

theorem mem_createGate {id name : String} {gateType : GateType} {position : Point} :
    name ∈ (createGate id gateType position).pinNames ↔ name ∈ getDefaultInputPinNames gateType ∨ name = "OUT" := by
  constructor
  · intro h
    obtain ⟨pin, hpin, rfl⟩ := mem_map.1 h
    rcases mem_append.1 hpin with hin | hout
    · obtain ⟨name, hname, rfl⟩ := mem_map.1 hin
      exact Or.inl hname
    · rw [mem_singleton.1 hout]
      exact Or.inr rfl
  · rintro (hname | rfl)
    · exact mem_map.2 ⟨inputPin name "BOOL", mem_append_left _ (mem_map_of_mem hname), rfl⟩
    · exact mem_map.2 ⟨outputPin "OUT" "BOOL", mem_append_right _ (mem_singleton_self _), rfl⟩

/-! ## Wires under changes of nodes -/

namespace FbdGraph

variable {graph : FbdGraph} {allowed : PinDirection → Bool} {id name : String}

theorem HasPin.append (h : graph.HasPin allowed id name) (new : BaseNode) :
    { graph with nodes := graph.nodes ++ [new] }.HasPin allowed id name := by
  obtain ⟨node, pin, hnode, hpin⟩ := h
  exact ⟨node, pin, findNode_append hnode new, hpin⟩

theorem HasPin.filter (h : graph.HasPin allowed id name) {elementId : String} (hne : id ≠ elementId)
    (edges : List BaseEdge) :
    (⟨graph.id, graph.nodes.filter fun n => n.id != elementId, edges⟩ : FbdGraph).HasPin allowed id name := by
  obtain ⟨node, pin, hnode, hpin⟩ := h
  refine ⟨node, pin, ?_, hpin⟩
  rw [findNode_filter hne]
  exact hnode

/-- A new definition of a node keeps the pins whose names it has. -/
theorem HasPin.setNode (h : graph.HasPin allowed id name) {old node : BaseNode}
    (hfind : graph.findNode nodeId = some old) (hid : node.id = nodeId) (hold : old.Typed) (hnew : node.Typed)
    (hname : id = nodeId → name ∈ old.pinNames → allowed (namedDirection name) = true → name ∈ node.pinNames) :
    (graph.setNode nodeId node).HasPin allowed id name := by
  obtain ⟨node', pin, hnode, hpin, hallowed⟩ := h
  by_cases heq : id = nodeId
  · rw [heq, hfind, Option.some.injEq] at hnode
    rw [← hnode] at hpin
    rw [hold.direction hpin] at hallowed
    obtain ⟨pin', hpin'⟩ := mem_pinNames.1 (hname heq (mem_pinNames.2 ⟨pin, hpin⟩) hallowed)
    refine ⟨node, pin', ?_, hpin', ?_⟩
    · rw [heq]
      exact findNode_setNode hfind hid
    · rw [hnew.direction hpin']
      exact hallowed
  · refine ⟨node', pin, ?_, hpin, hallowed⟩
    rw [findNode_setNode_of_ne hid heq]
    exact hnode

theorem WellWired.of_sublist {graph' : FbdGraph} (h : graph.WellWired) (hsub : graph'.edges.Sublist graph.edges)
    (hsource : ∀ e ∈ graph'.edges, graph.HasPin PinDirection.drives e.sourceId e.sourcePortName →
      graph'.HasPin PinDirection.drives e.sourceId e.sourcePortName)
    (htarget : ∀ e ∈ graph'.edges, graph.HasPin PinDirection.reads e.targetId e.targetPortName →
      graph'.HasPin PinDirection.reads e.targetId e.targetPortName) : graph'.WellWired where
  sources e he := hsource e he (h.sources e (hsub.subset he))
  targets e he := htarget e he (h.targets e (hsub.subset he))
  single := (hsub.map _).nodup h.single

theorem WellWired.append (h : graph.WellWired) (new : BaseNode) :
    { graph with nodes := graph.nodes ++ [new] }.WellWired where
  sources e he := (h.sources e he).append new
  targets e he := (h.targets e he).append new
  single := h.single

end FbdGraph

theorem validatePin_ok {graph : FbdGraph} {nodeId portName role : String} {pin : Pin}
    (h : validatePin graph nodeId portName role = .ok pin) :
    ∃ node, graph.findNode nodeId = some node ∧ findPin node portName = some pin := by
  unfold validatePin at h
  cases hnode : graph.findNode nodeId with
  | none =>
    rw [hnode] at h
    cases h
  | some node =>
    rw [hnode] at h
    dsimp only at h
    cases hpin : findPin node portName with
    | none =>
      rw [hpin] at h
      cases h
    | some pin' =>
      rw [hpin] at h
      dsimp only at h
      rw [Except.ok.injEq] at h
      rw [← h]
      exact ⟨node, rfl, hpin⟩

theorem drives_iff {direction : PinDirection} : direction.drives = true ↔ direction = .output ∨ direction = .bidi := by
  cases direction <;> decide

theorem reads_iff {direction : PinDirection} : direction.reads = true ↔ direction = .input ∨ direction = .bidi := by
  cases direction <;> decide

/-- The checks let a wire through only where both pins are there. -/
theorem checkPins_isOk {graph : FbdGraph} {params : ConnectPinsParams} (h : (checkPins graph params).isOk = true) :
    graph.HasPin PinDirection.drives params.sourceNodeId params.sourcePortName ∧
      graph.HasPin PinDirection.reads params.targetNodeId params.targetPortName := by
  unfold checkPins at h
  cases hsource : validatePin graph params.sourceNodeId params.sourcePortName "source" with
  | error message =>
    rw [hsource] at h
    cases h
  | ok srcPin =>
    cases htarget : validatePin graph params.targetNodeId params.targetPortName "target" with
    | error message =>
      rw [hsource, htarget] at h
      cases h
    | ok tgtPin =>
      rw [hsource, htarget] at h
      simp only [bind, Except.bind] at h
      obtain ⟨src, hsrc, hsrcPin⟩ := validatePin_ok hsource
      obtain ⟨tgt, htgt, htgtPin⟩ := validatePin_ok htarget
      by_cases hout : srcPin.direction ≠ .output ∧ srcPin.direction ≠ .bidi
      · rw [if_pos hout] at h
        cases h
      · rw [if_neg hout] at h
        by_cases hin : tgtPin.direction ≠ .input ∧ tgtPin.direction ≠ .bidi
        · rw [if_pos hin] at h
          cases h
        · refine ⟨⟨src, srcPin, hsrc, hsrcPin, ?_⟩, ⟨tgt, tgtPin, htgt, htgtPin, ?_⟩⟩
          · rw [drives_iff]
            by_contra hneither
            exact hout (not_or.1 hneither)
          · rw [reads_iff]
            by_contra hneither
            exact hin (not_or.1 hneither)

/-! ## Steps -/

variable [CaseMap]

/-- What the handler leaves unchecked: whether the input has a wire already, and whether the wired inputs of a gate are
inputs of its new type. -/
def KeepsWiring (s : Session) : Operation → Prop
  | .connectPins params =>
    s.Draws params → ∀ e ∈ s.graph.edges, ¬ (e.targetId = params.targetNodeId ∧ e.targetPortName = params.targetPortName)
  | .changeGateType elementId newGateType =>
    (∃ node, s.OtherGate elementId newGateType node) →
      ∀ e ∈ s.graph.edges, e.targetId = elementId → e.targetPortName ∈ getDefaultInputPinNames newGateType
  | _ => True

/-- The nodes are typed and the wires end at their pins. -/
structure Sound (s : Session) : Prop where
  typed : ∀ node ∈ s.graph.nodes, node.Typed
  wired : s.graph.WellWired

section
omit [CaseMap]

theorem typed_setNode {graph : FbdGraph} (h : ∀ node ∈ graph.nodes, node.Typed) {new : BaseNode}
    (hnew : new.Typed) : ∀ node ∈ (graph.setNode nodeId new).nodes, node.Typed := by
  intro node hnode
  rcases mem_updateFirst hnode with hold | ⟨_, _, _, rfl⟩
  · exact h node hold
  · exact hnew

theorem typed_append {nodes : List BaseNode} (h : ∀ node ∈ nodes, node.Typed) {new : BaseNode} (hnew : new.Typed) :
    ∀ node ∈ nodes ++ [new], node.Typed := by
  intro node hnode
  rcases mem_append.1 hnode with hold | hlast
  · exact h node hold
  · rw [mem_singleton.1 hlast]
    exact hnew

theorem typed_findNode {graph : FbdGraph} (h : ∀ node ∈ graph.nodes, node.Typed)
    (hfind : graph.findNode nodeId = some node) : node.Typed :=
  h node (findNode_id hfind).2

end

/-- Every operation keeps the nodes typed. -/
theorem typed_step {s : Session} (h : ∀ node ∈ s.graph.nodes, node.Typed) (op : Operation) :
    ∀ node ∈ (s.step op).graph.nodes, node.Typed := by
  cases op with
  | createGate gateType position => exact typed_append h (typed_createGate ..)
  | createFunctionBlock fbType position => exact typed_append h (typed_createFbWithPins ..)
  | deleteElement elementId =>
    cases hfind : s.graph.findNode elementId with
    | none =>
      rw [Session.step_deleteElement_none hfind]
      exact h
    | some node =>
      rw [Session.step_deleteElement hfind]
      exact fun n hn => h n (mem_of_mem_filter hn)
  | connectPins params =>
    rw [Session.step_connectPins]
    split
    · exact h
    · exact h
  | disconnectPin nodeId portName =>
    cases hfind : s.graph.findNode nodeId with
    | none =>
      rw [Session.step_disconnectPin_none hfind]
      exact h
    | some node =>
      rw [Session.step_disconnectPin hfind]
      exact h
  | moveElement elementId newPosition =>
    cases hfind : s.graph.findNode elementId with
    | none =>
      rw [Session.step_moveElement_none hfind]
      exact h
    | some node =>
      rw [Session.step_moveElement hfind]
      have hnode := typed_findNode h hfind
      exact typed_setNode h ⟨hnode.pins, hnode.gate⟩
  | changeGateType elementId newGateType =>
    by_cases hother : ∃ node, s.OtherGate elementId newGateType node
    · obtain ⟨node, hother⟩ := hother
      rw [Session.step_changeGateType hother]
      exact typed_setNode h (typed_createGate ..)
    · rw [Session.step_changeGateType_none (not_exists.1 hother)]
      exact h
  | changeFbType fbId newFbType =>
    by_cases hother : ∃ node, s.OtherFb fbId newFbType node
    · obtain ⟨node, hother⟩ := hother
      rw [Session.step_changeFbType hother]
      exact typed_setNode h (typed_createFbWithPins ..)
    · rw [Session.step_changeFbType_none (not_exists.1 hother)]
      exact h

omit [CaseMap] in
/-- An edge that is kept ends at pins of the new block. -/
theorem keepsPin_iff {newFb : BaseNode} {e : BaseEdge} : Session.keepsPin newFb e = true ↔
    (e.sourceId = newFb.id → e.sourcePortName ∈ newFb.pinNames) ∧
      (e.targetId = newFb.id → e.targetPortName ∈ newFb.pinNames) := by
  unfold Session.keepsPin BaseNode.pinNames
  simp only [Bool.and_eq_true, Bool.not_eq_true', Bool.and_eq_false_iff, beq_eq_false_iff_ne, Bool.not_eq_false',
    contains_iff_mem]
  constructor
  · rintro ⟨hsource, htarget⟩
    exact ⟨fun heq => hsource.resolve_left fun hne => hne heq, fun heq => htarget.resolve_left fun hne => hne heq⟩
  · rintro ⟨hsource, htarget⟩
    exact ⟨Decidable.or_iff_not_imp_left.2 fun h => hsource (not_not.1 h),
      Decidable.or_iff_not_imp_left.2 fun h => htarget (not_not.1 h)⟩

/-- **A step that checks what the handler leaves out** keeps the wiring. -/
theorem Sound.step {s : Session} (h : Sound s) {op : Operation} (hkeeps : KeepsWiring s op) :
    (s.step op).graph.WellWired := by
  have hwired := h.wired
  cases op with
  | createGate gateType position =>
    exact hwired.append _
  | createFunctionBlock fbType position =>
    exact hwired.append _
  | deleteElement elementId =>
    cases hfind : s.graph.findNode elementId with
    | none =>
      rw [Session.step_deleteElement_none hfind]
      exact hwired
    | some node =>
      rw [Session.step_deleteElement hfind]
      have huntouched : ∀ e ∈ s.graph.edges.filter fun e => !e.touches elementId,
          e.sourceId ≠ elementId ∧ e.targetId ≠ elementId := by
        intro e he
        have htouches := (mem_filter.1 he).2
        unfold BaseEdge.touches at htouches
        rw [Bool.not_eq_true', Bool.or_eq_false_iff, beq_eq_false_iff_ne, beq_eq_false_iff_ne] at htouches
        exact htouches
      apply hwired.of_sublist filter_sublist
      · exact fun e he hpin => hpin.filter (huntouched e he).1 _
      · exact fun e he hpin => hpin.filter (huntouched e he).2 _
  | connectPins params =>
    rw [Session.step_connectPins]
    by_cases hdraws : s.Draws params = true
    · rw [if_pos hdraws]
      have hok : (checkPins s.graph params).isOk = true := by
        unfold Session.Draws at hdraws
        rw [Bool.and_eq_true] at hdraws
        exact hdraws.1
      obtain ⟨hsource, htarget⟩ := checkPins_isOk hok
      refine ⟨?_, ?_, ?_⟩
      · intro e he
        rcases mem_append.1 he with he | he
        · exact hwired.sources e he
        · rw [mem_singleton.1 he]
          exact hsource
      · intro e he
        rcases mem_append.1 he with he | he
        · exact hwired.targets e he
        · rw [mem_singleton.1 he]
          exact htarget
      · dsimp only
        rw [map_append, map_singleton]
        refine nodup_snoc.2 ⟨?_, hwired.single⟩
        intro hmem
        obtain ⟨e, he, heq⟩ := mem_map.1 hmem
        exact hkeeps hdraws e he (Prod.mk.inj heq)
    · rw [if_neg hdraws]
      exact hwired
  | disconnectPin nodeId portName =>
    cases hfind : s.graph.findNode nodeId with
    | none =>
      rw [Session.step_disconnectPin_none hfind]
      exact hwired
    | some node =>
      rw [Session.step_disconnectPin hfind]
      apply hwired.of_sublist filter_sublist
      · exact fun e _ hpin => hpin
      · exact fun e _ hpin => hpin
  | moveElement elementId newPosition =>
    cases hfind : s.graph.findNode elementId with
    | none =>
      rw [Session.step_moveElement_none hfind]
      exact hwired
    | some node =>
      rw [Session.step_moveElement hfind]
      have hnode := typed_findNode h.typed hfind
      have hmoved : { node with position := snapToGrid newPosition }.Typed := ⟨hnode.pins, hnode.gate⟩
      apply hwired.of_sublist
      · exact List.Sublist.refl _
      · exact fun e _ hpin => hpin.setNode hfind (findNode_id hfind).1 hnode hmoved fun _ hname _ => hname
      · exact fun e _ hpin => hpin.setNode hfind (findNode_id hfind).1 hnode hmoved fun _ hname _ => hname
  | changeGateType elementId newGateType =>
    by_cases hother : ∃ node, s.OtherGate elementId newGateType node
    · have hinputs := hkeeps hother
      obtain ⟨node, hother⟩ := hother
      rw [Session.step_changeGateType hother]
      obtain ⟨hfind, gateType, hkind, _⟩ := hother
      have hnode := typed_findNode h.typed hfind
      have hnew := typed_createGate elementId newGateType node.position
      apply hwired.of_sublist
      · exact List.Sublist.refl _
      · intro e _ hpin
        apply hpin.setNode hfind rfl hnode hnew
        -- the one output of a gate is an output of every gate
        intro _ hname hdrives
        rw [hnode.gate_output hkind hname hdrives]
        exact out_mem_createGate ..
      · intro e he hpin
        apply hpin.setNode hfind rfl hnode hnew
        intro heq _ _
        exact mem_createGate.2 (Or.inl (hinputs e he heq))
    · rw [Session.step_changeGateType_none (not_exists.1 hother)]
      exact hwired
  | changeFbType fbId newFbType =>
    by_cases hother : ∃ node, s.OtherFb fbId newFbType node
    · obtain ⟨node, hother⟩ := hother
      rw [Session.step_changeFbType hother]
      obtain ⟨hfind, _⟩ := hother
      have hnode := typed_findNode h.typed hfind
      have hnew := typed_createFbWithPins fbId newFbType node.position
      apply hwired.of_sublist filter_sublist
      · intro e he hpin
        have hkept := keepsPin_iff.1 (mem_filter.1 he).2
        exact hpin.setNode hfind rfl hnode hnew fun heq _ _ => hkept.1 heq
      · intro e he hpin
        have hkept := keepsPin_iff.1 (mem_filter.1 he).2
        exact hpin.setNode hfind rfl hnode hnew fun heq _ _ => hkept.2 heq
    · rw [Session.step_changeFbType_none (not_exists.1 hother)]
      exact hwired

/-- A step that breaks a check breaks the wiring. -/
theorem keepsWiring_of_wellWired {s : Session} {op : Operation} (h : (s.step op).graph.WellWired) :
    KeepsWiring s op := by
  cases op with
  | connectPins params =>
    intro hdraws e he htarget
    rw [Session.step_connectPins, if_pos hdraws] at h
    have hsingle := h.single
    dsimp only at hsingle
    rw [map_append, map_singleton] at hsingle
    apply (nodup_snoc.1 hsingle).1
    exact mem_map.2 ⟨e, he, Prod.ext htarget.1 htarget.2⟩
  | changeGateType elementId newGateType =>
    rintro ⟨node, hother⟩ e he htarget
    rw [Session.step_changeGateType hother] at h
    obtain ⟨node', pin, hnode', hpin, hreads⟩ := h.targets e he
    rw [htarget, FbdGraph.findNode_setNode hother.1 rfl, Option.some.injEq] at hnode'
    rw [← hnode'] at hpin
    rcases mem_createGate.1 (mem_pinNames.2 ⟨pin, hpin⟩) with hname | hname
    · exact hname
    · -- `OUT` is no input
      rw [(typed_createGate ..).direction hpin, hname] at hreads
      exact absurd hreads (by decide)
  | _ => trivial

omit [CaseMap] in
theorem sound_empty (n : Nat) (id : String) : Sound ⟨n, emptyGraph id⟩ where
  typed node hnode := by cases hnode
  wired := by
    refine ⟨?_, ?_, nodup_nil⟩
    · intro e he
      cases he
    · intro e he
      cases he

/-- **Wiring over a session.** The graph stays well wired exactly where every wire is drawn to an input without one,
and every gate that changes its type has the wired inputs in the new one. -/
theorem wellWired_iff (n : Nat) (id : String) (ops : List Operation) :
    Always Session.step (fun s => s.graph.WellWired) ⟨n, emptyGraph id⟩ ops ↔
      EveryStep Session.step KeepsWiring ⟨n, emptyGraph id⟩ ops := by
  apply always_iff (I := Sound)
  · exact fun _ h => h.wired
  · exact fun s op h hkeeps => ⟨typed_step h.typed op, h.step hkeeps⟩
  · exact fun _ _ _ h => keepsWiring_of_wellWired h
  · exact sound_empty n id

end Audesys.FbdEditor

/-! ## A gate with a wired selector -/

namespace Audesys.FbdEditor

open Audesys.Lib

local instance asciiWiring : CaseMap := .ascii

/-- An `AND` drives the selector of a `MUX`, which is then made an `AND`. -/
def selectorOps : List Operation :=
  [.createGate .and ⟨0, 0⟩, .createGate .mux ⟨200, 0⟩, .connectPins ⟨"gate-1", "OUT", "gate-2", "SEL"⟩,
    .changeGateType "gate-2" .and]

/-- The wire to the selector ends at a pin that the gate no longer has. -/
theorem wellWired_fail :
    ¬ Always Session.step (fun s => s.graph.WellWired) ⟨0, emptyGraph "graph"⟩ selectorOps := by
  intro h
  have hwired := h selectorOps (prefix_refl _)
  obtain ⟨node, pin, hnode, hpin, _⟩ := hwired.targets ⟨"signal-3", "gate-1", "OUT", "gate-2", "SEL"⟩ (by decide +kernel)
  have hnone : ((selectorOps.foldl Session.step ⟨0, emptyGraph "graph"⟩).graph.findNode "gate-2").bind
      (findPin · "SEL") = none := by decide +kernel
  rw [hnode, Option.bind_some, hpin] at hnone
  cases hnone

end Audesys.FbdEditor
