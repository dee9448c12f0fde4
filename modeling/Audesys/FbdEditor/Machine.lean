import Audesys.FbdEditor.Il
import Audesys.Lib.Run

/-!
# `FbdEditor.Machine` — running an instruction list

The reference machine has one accumulator and Boolean variables. The lines of a gate compute its value and assign it
(`gate_run`), so a program of gates runs as the assignments of its gates, one after another (`gates_run`).
-/

namespace Audesys.FbdEditor

open Audesys.Lib

variable {name : String} {operand : String} {op : String → IlLine}
variable {b : Nat}

/-- The list as it runs: line, accumulator and memory. -/
structure MachineState where
  pc : Nat
  acc : Bool
  mem : String → Bool

/-- The value of an operand; `FALSE` denotes false. -/
def valueOf (mem : String → Bool) (operand : String) : Bool := if operand = "FALSE" then false else mem operand

/-- The line of a label. -/
def lineOf (prog : List IlLine) (name : String) : Option Nat := prog.findIdx? fun line => decide (line = .label name)

/-- One step; calls of function blocks are not executed. -/
def next (prog : List IlLine) (s : MachineState) : Option MachineState :=
  match prog[s.pc]? with
  | none => none
  | some line =>
    match line with
    | .ld operand _ => some ⟨s.pc + 1, valueOf s.mem operand, s.mem⟩
    | .ldn operand _ => some ⟨s.pc + 1, !valueOf s.mem operand, s.mem⟩
    | .and operand => some ⟨s.pc + 1, s.acc && valueOf s.mem operand, s.mem⟩
    | .or operand => some ⟨s.pc + 1, s.acc || valueOf s.mem operand, s.mem⟩
    | .xor operand => some ⟨s.pc + 1, s.acc ^^ valueOf s.mem operand, s.mem⟩
    | .st operand => some ⟨s.pc + 1, s.acc, Function.update s.mem operand s.acc⟩
    | .jmp name => (lineOf prog name).map fun pc => ⟨pc, s.acc, s.mem⟩
    | .jmpc name =>
      if s.acc then (lineOf prog name).map fun pc => ⟨pc, s.acc, s.mem⟩ else some ⟨s.pc + 1, s.acc, s.mem⟩
    | .label _ => some ⟨s.pc + 1, s.acc, s.mem⟩
    | .cal .. => none

/-- The program runs from its first line past its last one. -/
def Ends (prog : List IlLine) (mem mem' : String → Bool) : Prop :=
  ∃ n acc, RunN (next prog) n ⟨0, false, mem⟩ ⟨prog.length, acc, mem'⟩

/-! ## The value of a gate -/

/-- Whether an odd number of them is true. -/
def parity (inputs : List Bool) : Bool := inputs.foldl Bool.xor false

/-- What a gate makes of the values of its inputs: "odd number of TRUE inputs gives output TRUE" for `XOR`. -/
def GateType.eval (inputs : List Bool) : GateType → Bool
  | .not => !inputs.getD 0 false
  | .and => inputs.all id
  | .or => inputs.any id
  | .xor => parity inputs
  | .mux => if inputs.getD 0 false then inputs.getD 2 false else inputs.getD 1 false

/-- What its lines make of them: those of an `XOR` read the first two. -/
def GateType.emitted (inputs : List Bool) : GateType → Bool
  | .xor => inputs.getD 0 false ^^ inputs.getD 1 false
  | gateType => gateType.eval inputs

/-- How many inputs a gate has: `AND` and `OR` have any positive number, `XOR` two or more. -/
def GateType.arity (n : Nat) : GateType → Prop
  | .not => n = 1
  | .and | .or => 0 < n
  | .xor => 2 ≤ n
  | .mux => n = 3

/-- A chain of XOR lines flips its start by the parity of the operands. -/
theorem foldl_xor (bs : List Bool) (acc : Bool) : bs.foldl Bool.xor acc = (acc ^^ parity bs) := by
  induction bs generalizing acc with
  | nil => exact (Bool.xor_false acc).symm
  | cons b bs ih =>
    have hcons : parity (b :: bs) = ((false ^^ b) ^^ parity bs) := ih (false ^^ b)
    rw [List.foldl_cons, ih, hcons, Bool.false_xor, ← Bool.xor_assoc]

/-- The lines are right where the inputs of an `XOR` behind the second have even parity. -/
theorem GateType.emitted_eq_iff (inputs : List Bool) (gateType : GateType) :
    gateType.emitted inputs = gateType.eval inputs ↔ (gateType = .xor → parity (inputs.drop 2) = false) := by
  cases gateType with
  | xor =>
    have hparity : parity inputs = ((inputs.getD 0 false ^^ inputs.getD 1 false) ^^ parity (inputs.drop 2)) := by
      match inputs with
      | [] => rfl
      | [a] => cases a <;> rfl
      | a :: b :: rest =>
        rw [parity, List.foldl_cons, List.foldl_cons, foldl_xor]
        cases a <;> rfl
    show (inputs.getD 0 false ^^ inputs.getD 1 false) = parity inputs ↔ _
    rw [hparity]
    generalize (inputs.getD 0 false ^^ inputs.getD 1 false) = front
    cases front <;> simp
  | _ => simp [emitted]

/-! ## Single lines -/

variable {prog : List IlLine} {s : MachineState}

theorem next_ld {comment : Option String} (h : prog[s.pc]? = some (.ld operand comment)) :
    next prog s = some ⟨s.pc + 1, valueOf s.mem operand, s.mem⟩ := by
  unfold next
  rw [h]

theorem next_ldn {comment : Option String} (h : prog[s.pc]? = some (.ldn operand comment)) :
    next prog s = some ⟨s.pc + 1, !valueOf s.mem operand, s.mem⟩ := by
  unfold next
  rw [h]

theorem next_xor (h : prog[s.pc]? = some (.xor operand)) :
    next prog s = some ⟨s.pc + 1, s.acc ^^ valueOf s.mem operand, s.mem⟩ := by
  unfold next
  rw [h]

theorem next_st (h : prog[s.pc]? = some (.st operand)) :
    next prog s = some ⟨s.pc + 1, s.acc, Function.update s.mem operand s.acc⟩ := by
  unfold next
  rw [h]

theorem next_jmp {pc : Nat} (h : prog[s.pc]? = some (.jmp name)) (hline : lineOf prog name = some pc) :
    next prog s = some ⟨pc, s.acc, s.mem⟩ := by
  unfold next
  rw [h]
  dsimp only
  rw [hline]
  rfl

theorem next_jmpc_true {pc : Nat} (h : prog[s.pc]? = some (.jmpc name))
    (hline : lineOf prog name = some pc) (hacc : s.acc = true) : next prog s = some ⟨pc, s.acc, s.mem⟩ := by
  unfold next
  rw [h]
  dsimp only
  rw [if_pos hacc, hline]
  rfl

theorem next_jmpc_false (h : prog[s.pc]? = some (.jmpc name)) (hacc : s.acc = false) :
    next prog s = some ⟨s.pc + 1, s.acc, s.mem⟩ := by
  unfold next
  rw [h]
  dsimp only
  rw [hacc]
  rfl

theorem next_label (h : prog[s.pc]? = some (.label name)) : next prog s = some ⟨s.pc + 1, s.acc, s.mem⟩ := by
  unfold next
  rw [h]

/-! ## Labels -/

def IlLine.labelName : IlLine → Option String
  | .label name => some name
  | _ => none

/-- No label stands on two lines. -/
def OwnLabels (prog : List IlLine) : Prop := (prog.filterMap IlLine.labelName).Nodup

/-- With distinct labels a jump to a label goes to the line that carries it. -/
theorem lineOf_eq (h : OwnLabels prog) {i : Nat} (hi : prog[i]? = some (.label name)) :
    lineOf prog name = some i := by
  obtain ⟨hlt, hline⟩ := List.getElem?_eq_some_iff.1 hi
  have hpairs := List.pairwise_filterMap.1 h
  unfold lineOf
  rw [List.findIdx?_eq_some_iff_getElem]
  refine ⟨hlt, decide_eq_true hline, ?_⟩
  intro j hj hlabel
  have hne := List.pairwise_iff_getElem.1 hpairs j i (Nat.lt_trans hj hlt) hlt hj
  rw [of_decide_eq_true hlabel, hline] at hne
  exact hne name rfl name rfl rfl

theorem labels_chainLines (hop : ∀ x, (op x).labelName = none) (name nodeId : String)
    (inputs : List String) : (chainLines name nodeId op inputs).filterMap IlLine.labelName = [] := by
  rw [List.filterMap_eq_nil_iff]
  intro line hline
  unfold chainLines at hline
  split at hline
  · rw [List.mem_cons, List.mem_singleton] at hline
    rcases hline with rfl | rfl
    · rfl
    · exact hop _
  · rcases List.mem_cons.1 hline with rfl | hline
    · rfl
    · obtain ⟨x, _, rfl⟩ := List.mem_map.1 hline
      exact hop x

/-- Only multiplexers have labels. -/
theorem labels_valueLines (nodeId : String) (inputs : List String) (gateType : GateType) :
    (valueLines nodeId inputs gateType).filterMap IlLine.labelName =
      if gateType = .mux then [muxSel0 nodeId, muxEnd nodeId] else [] := by
  cases gateType with
  | and => exact labels_chainLines (fun _ => rfl) ..
  | or => exact labels_chainLines (fun _ => rfl) ..
  | _ => rfl

/-! ## The lines of a gate -/

/-- The lines from `b` on compute a value into the accumulator. -/
def Computes (prog : List IlLine) (b : Nat) (lines : List IlLine) (value : (String → Bool) → Bool) : Prop :=
  ∀ acc mem, ∃ n, RunN (next prog) n ⟨b, acc, mem⟩ ⟨b + lines.length, value mem, mem⟩

/-- A line that combines the accumulator with an operand. -/
structure Combines (op : String → IlLine) (f : Bool → Bool → Bool) : Prop where
  step : ∀ prog s operand, prog[s.pc]? = some (op operand) →
    next prog s = some ⟨s.pc + 1, f s.acc (valueOf s.mem operand), s.mem⟩

theorem combines_and : Combines .and Bool.and := by
  constructor
  intro prog s operand h
  unfold next
  rw [h]

theorem combines_or : Combines .or Bool.or := by
  constructor
  intro prog s operand h
  unfold next
  rw [h]

/-- A load and a chain of one operator leave the fold of the operands in the accumulator. -/
theorem chain_run {f : Bool → Bool → Bool} (hop : Combines op f) (operands : List String)
    (hcode : CodeAt prog b (operands.map op)) (acc : Bool) (mem : String → Bool) :
    RunN (next prog) operands.length ⟨b, acc, mem⟩
      ⟨b + operands.length, operands.foldl (fun acc x => f acc (valueOf mem x)) acc, mem⟩ := by
  induction operands generalizing b acc with
  | nil => exact .refl _
  | cons x operands ih =>
    rw [List.map_cons] at hcode
    have hrest := ih hcode.tail (f acc (valueOf mem x))
    rw [List.length_cons, ← Nat.add_assoc b, Nat.add_right_comm]
    exact .step (hop.step prog ⟨b, acc, mem⟩ x hcode.head) hrest

theorem chainLines_eq (name nodeId : String) (op : String → IlLine) (x : String) (rest : List String) :
    ∃ comment, chainLines name nodeId op (x :: rest) = .ld x comment :: rest.map op := by
  unfold chainLines
  by_cases h : (x :: rest).length = 2
  · rw [if_pos h]
    obtain ⟨y, rfl⟩ := List.length_eq_one_iff.1 (Nat.succ.inj h)
    exact ⟨_, rfl⟩
  · rw [if_neg h]
    exact ⟨none, rfl⟩

theorem foldl_and (bs : List Bool) (acc : Bool) : bs.foldl Bool.and acc = (acc && bs.all id) := by
  induction bs generalizing acc with
  | nil => rw [List.foldl_nil, List.all_nil, Bool.and_true]
  | cons b bs ih =>
    rw [List.foldl_cons, ih, List.all_cons, ← Bool.and_assoc]
    rfl

theorem foldl_or (bs : List Bool) (acc : Bool) : bs.foldl Bool.or acc = (acc || bs.any id) := by
  induction bs generalizing acc with
  | nil => rw [List.foldl_nil, List.any_nil, Bool.or_false]
  | cons b bs ih =>
    rw [List.foldl_cons, ih, List.any_cons, ← Bool.or_assoc]
    rfl

/-- A load and the operations behind it. -/
theorem chainLines_run {f : Bool → Bool → Bool} (hop : Combines op f) {name nodeId : String}
    {inputs : List String} (hne : 0 < inputs.length) (hcode : CodeAt prog b (chainLines name nodeId op inputs)) :
    Computes prog b (chainLines name nodeId op inputs) fun mem =>
      ((inputs.map (valueOf mem)).drop 1).foldl f ((inputs.map (valueOf mem)).getD 0 false) := by
  intro acc mem
  obtain ⟨x, rest, rfl⟩ := List.exists_cons_of_length_pos hne
  obtain ⟨comment, heq⟩ := chainLines_eq name nodeId op x rest
  rw [heq] at hcode ⊢
  have hrest := chain_run hop rest hcode.tail (valueOf mem x) mem
  refine ⟨rest.length + 1, .step (next_ld hcode.head) ?_⟩
  dsimp only
  rw [List.length_cons, List.length_map, List.map_cons, List.drop_one, List.tail_cons, List.getD_cons_zero, List.foldl_map,
    Nat.add_comm rest.length 1, ← Nat.add_assoc]
  exact hrest

/-- A multiplexer jumps over the load of the input that is not selected. -/
theorem mux_run (hlabels : OwnLabels prog) {nodeId sel in0 in1 : String}
    (hcode : CodeAt prog b (valueLines nodeId [sel, in0, in1] .mux)) :
    Computes prog b (valueLines nodeId [sel, in0, in1] .mux) fun mem =>
      if valueOf mem sel then valueOf mem in1 else valueOf mem in0 := by
  intro acc mem
  have hlen : ∀ k < 7, k < (valueLines nodeId [sel, in0, in1] .mux).length := fun _ hk => hk
  have hjmpc : prog[b + 1]? = some (.jmpc (muxSel0 nodeId)) := hcode.get (hlen 1 (by decide))
  have hld0 : prog[b + 2]? = some (.ld in0 none) := hcode.get (hlen 2 (by decide))
  have hjmp : prog[b + 3]? = some (.jmp (muxEnd nodeId)) := hcode.get (hlen 3 (by decide))
  have hsel0 : prog[b + 4]? = some (.label (muxSel0 nodeId)) := hcode.get (hlen 4 (by decide))
  have hld1 : prog[b + 5]? = some (.ld in1 none) := hcode.get (hlen 5 (by decide))
  have hend : prog[b + 6]? = some (.label (muxEnd nodeId)) := hcode.get (hlen 6 (by decide))
  have hload : next prog ⟨b, acc, mem⟩ = some ⟨b + 1, valueOf mem sel, mem⟩ := next_ld hcode.head
  have hlast : ∀ v, next prog ⟨b + 6, v, mem⟩ = some ⟨b + 7, v, mem⟩ := fun v => next_label (s := ⟨b + 6, v, mem⟩) hend
  show ∃ n, RunN (next prog) n _ ⟨b + 7, if valueOf mem sel then valueOf mem in1 else valueOf mem in0, mem⟩
  cases hvalue : valueOf mem sel with
  | true =>
    rw [hvalue] at hload
    rw [if_pos rfl]
    have h₁ : next prog ⟨b + 1, true, mem⟩ = some ⟨b + 4, true, mem⟩ :=
      next_jmpc_true (s := ⟨b + 1, true, mem⟩) hjmpc (lineOf_eq hlabels hsel0) rfl
    have h₂ : next prog ⟨b + 4, true, mem⟩ = some ⟨b + 5, true, mem⟩ := next_label (s := ⟨b + 4, true, mem⟩) hsel0
    have h₃ : next prog ⟨b + 5, true, mem⟩ = some ⟨b + 6, valueOf mem in1, mem⟩ :=
      next_ld (s := ⟨b + 5, true, mem⟩) hld1
    exact ⟨5, .step hload (.step h₁ (.step h₂ (.step h₃ (.single (hlast _)))))⟩
  | false =>
    rw [hvalue] at hload
    rw [if_neg Bool.false_ne_true]
    have h₁ : next prog ⟨b + 1, false, mem⟩ = some ⟨b + 2, false, mem⟩ :=
      next_jmpc_false (s := ⟨b + 1, false, mem⟩) hjmpc rfl
    have h₂ : next prog ⟨b + 2, false, mem⟩ = some ⟨b + 3, valueOf mem in0, mem⟩ :=
      next_ld (s := ⟨b + 2, false, mem⟩) hld0
    have h₃ : next prog ⟨b + 3, valueOf mem in0, mem⟩ = some ⟨b + 6, valueOf mem in0, mem⟩ :=
      next_jmp (s := ⟨b + 3, valueOf mem in0, mem⟩) hjmp (lineOf_eq hlabels hend)
    exact ⟨5, .step hload (.step h₁ (.step h₂ (.step h₃ (.single (hlast _)))))⟩

/-- **The lines of a gate** compute its value, as they see it. -/
theorem gate_run (hlabels : OwnLabels prog) {nodeId : String} {inputs : List String} {gateType : GateType}
    (harity : gateType.arity inputs.length) (hcode : CodeAt prog b (valueLines nodeId inputs gateType)) :
    Computes prog b (valueLines nodeId inputs gateType) fun mem => gateType.emitted (inputs.map (valueOf mem)) := by
  cases gateType with
  | not =>
    obtain ⟨x, rfl⟩ := List.length_eq_one_iff.1 harity
    intro acc mem
    exact ⟨1, .single (next_ldn (s := ⟨b, acc, mem⟩) hcode.head)⟩
  | xor =>
    obtain ⟨x, rest, rfl⟩ := List.exists_cons_of_length_pos (Nat.lt_of_lt_of_le Nat.zero_lt_two harity)
    obtain ⟨y, rest, rfl⟩ := List.exists_cons_of_length_pos (Nat.le_of_succ_le_succ harity)
    intro acc mem
    have hload : next prog ⟨b, acc, mem⟩ = some ⟨b + 1, valueOf mem x, mem⟩ := next_ld hcode.head
    exact ⟨2, .step hload (.single (next_xor (s := ⟨b + 1, valueOf mem x, mem⟩) hcode.tail.head))⟩
  | and =>
    have hrun := chainLines_run combines_and harity hcode
    intro acc mem
    obtain ⟨x, rest, rfl⟩ := List.exists_cons_of_length_pos harity
    obtain ⟨n, hn⟩ := hrun acc mem
    dsimp only at hn
    rw [foldl_and] at hn
    exact ⟨n, hn⟩
  | or =>
    have hrun := chainLines_run combines_or harity hcode
    intro acc mem
    obtain ⟨x, rest, rfl⟩ := List.exists_cons_of_length_pos harity
    obtain ⟨n, hn⟩ := hrun acc mem
    dsimp only at hn
    rw [foldl_or] at hn
    exact ⟨n, hn⟩
  | mux =>
    obtain ⟨sel, in0, in1, rfl⟩ := List.length_eq_three.1 harity
    exact mux_run hlabels hcode

/-! ## A program of gates -/

/-- A gate as an assignment to the variable it stores to. -/
def gateAssignment (inputs : List String) (out : String) (gateType : GateType) : Assignment String Bool where
  target := out
  reads := inputs.filter (· ≠ "FALSE")
  value mem := gateType.emitted (inputs.map (valueOf mem))
  depends mem mem' h := by
    have hsame : inputs.map (valueOf mem) = inputs.map (valueOf mem') := by
      apply List.map_congr_left
      intro x hx
      unfold valueOf
      by_cases hfalse : x = "FALSE"
      · rw [if_pos hfalse, if_pos hfalse]
      · rw [if_neg hfalse, if_neg hfalse]
        exact h x (List.mem_filter.2 ⟨hx, decide_eq_true hfalse⟩)
    rw [hsame]

/-- **A program of gates** runs as the assignments of the gates. -/
theorem gates_run {ι : Type} (hlabels : OwnLabels prog) {nodeId out : ι → String} {inputs : ι → List String}
    {gateType : ι → GateType} (gates : List ι) (harity : ∀ i ∈ gates, (gateType i).arity (inputs i).length)
    (hcode : CodeAt prog b
      (gates.flatMap fun i => valueLines (nodeId i) (inputs i) (gateType i) ++ [.st (out i)])) (acc : Bool)
    (mem : String → Bool) : ∃ n acc', RunN (next prog) n ⟨b, acc, mem⟩
      ⟨b + (gates.flatMap fun i => valueLines (nodeId i) (inputs i) (gateType i) ++ [.st (out i)]).length, acc',
        Assignment.run (gates.map fun i => gateAssignment (inputs i) (out i) (gateType i)) mem⟩ := by
  induction gates generalizing b acc mem with
  | nil => exact ⟨0, acc, .refl _⟩
  | cons i gates ih =>
    rw [List.flatMap_cons] at hcode ⊢
    obtain ⟨n, hvalue⟩ := gate_run hlabels (harity i (List.mem_cons_self ..)) hcode.left.left acc mem
    have hstore := next_st (s := ⟨_, (gateType i).emitted ((inputs i).map (valueOf mem)), mem⟩) hcode.left.right.head
    have hrest := hcode.right
    rw [List.length_append, List.length_singleton, ← Nat.add_assoc] at hrest
    obtain ⟨m, acc', htail⟩ := ih (fun j hj => harity j (List.mem_cons_of_mem _ hj)) hrest _ _
    refine ⟨n + (m + 1), acc', hvalue.trans (.step hstore ?_)⟩
    rw [List.length_append, List.length_append, List.length_singleton, ← Nat.add_assoc, ← Nat.add_assoc]
    exact htail

end Audesys.FbdEditor
