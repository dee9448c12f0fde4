import Audesys.Il.Control
import Audesys.Il.Lines

/-!
# `Il.Constants` — what a numeric operand denotes

Instruction List has no literals here: the operand of `LD 5` is the signal with the name `5`. Whether `LD 5`, `ST x`
puts the number into the signal `x` is therefore a matter of the signal table at the time control comes to the pair
(`storesNumber_iff`).
-/

namespace Audesys.Il

open Audesys.Hal Audesys.Lib

/-! ## Numbers -/

/-- Decimal digits. -/
def IsDecimal (s : List Char) : Prop := s ≠ [] ∧ s.all Char.isDigit = true

instance (s : List Char) : Decidable (IsDecimal s) := inferInstanceAs (Decidable (_ ∧ _))

/-- The number that digits denote. -/
def decimal (s : List Char) : Nat := s.foldl (fun n c => 10 * n + (c.toNat - 48)) 0

theorem not_space_of_digit {c : Char} (h : c.isDigit = true) : isWhitespace c = false := by
  have hrange : 48 ≤ c.toNat ∧ c.toNat ≤ 57 := by
    unfold Char.isDigit at h
    rw [Bool.and_eq_true, decide_eq_true_eq, decide_eq_true_eq] at h
    exact h
  simp only [isWhitespace, Bool.or_eq_false_iff, Bool.and_eq_false_iff, decide_eq_false_iff_not]
  omega

/-- Digits are read as they are written. -/
theorem IsDecimal.isName {s : List Char} (h : IsDecimal s) : IsName (String.ofList s) := by
  have hdigit := List.all_eq_true.1 h.2
  refine ⟨⟨?_, ?_⟩, ?_⟩
  · rw [String.toList_ofList]
    exact h.1
  · rw [String.toList_ofList]
    exact fun c hc => not_space_of_digit (hdigit c hc)
  · rw [String.toList_ofList]
    intro hin
    have hparen := hdigit _ hin
    cases hparen

theorem IsDecimal.readOperand {s : List Char} (h : IsDecimal s) : readOperand s = String.ofList s := by
  have hread := readOperand_name h.isName
  rwa [String.toList_ofList] at hread

variable [Target]

/-- The value of an integer. -/
def integer? : HalValue → Option Int
  | .s8 n => some n.toInt
  | .u8 n => some n.toNat
  | .s16 n => some n.toInt
  | .u16 n => some n.toNat
  | .s32 n => some n.toInt
  | .u32 n => some n.toNat
  | .s64 n => some n.toInt
  | .u64 n => some n.toNat
  | _ => none

/-! ## A pair of `LD` and `ST` -/

/-- `LD x`, `ST y` from statement `i` on. -/
structure Pair (stmts : List ILStatement) (i : Nat) (x y : String) : Prop where
  load : stmts[i]? = some (.load x)
  store : stmts[i + 1]? = some (.store y)

omit [Target] in
theorem Pair.of_append {stmts front back : List ILStatement} {x y : String}
    (h : stmts = front ++ .load x :: .store y :: back) : Pair stmts front.length x y := by
  subst h
  refine ⟨?_, ?_⟩
  · rw [List.getElem?_append_right (Nat.le_refl _), Nat.sub_self]
    rfl
  · rw [List.getElem?_append_right (Nat.le_add_right _ 1), Nat.add_sub_cancel_left]
    rfl

/-- Wherever a run executes statement `i + 1`, it is a store to the signal of a value that is the number. -/
def StoresNumber (stmts : List ILStatement) (code : List Instruction) (i : Nat) (n : Nat) (signal : String) (vm₀ : Vm) :
    Prop :=
  ∀ k u, RunN (next code) k vm₀ u → u.ip = start stmts (i + 1) →
    code[u.ip]? = some ⟨.store, [.signalName signal, .register crReg]⟩ ∧ integer? (u.get crReg) = some (n : Int)

/-- A run comes to the pair in the state `u`. -/
def Enters (stmts : List ILStatement) (code : List Instruction) (i : Nat) (vm₀ u : Vm) : Prop :=
  ∃ k t, RunN (next code) k vm₀ t ∧ next code t = some u ∧ ¬ (start stmts i ≤ t.ip ∧ t.ip < start stmts (i + 1)) ∧
    start stmts i ≤ u.ip ∧ u.ip ≤ start stmts (i + 1)

/-- The value that the operand has in a state in which control comes to the pair: that of its signal, or of its register
if the first instruction was jumped over, or of the accumulator behind both. -/
def incoming (regs : String → UInt8) (stmts : List ILStatement) (i : Nat) (x : String) (u : Vm) : HalValue :=
  if u.ip = start stmts i then (u.signals x).getD (.bool false)
  else if u.ip = start stmts i + 1 then u.get (regs x)
  else u.get crReg

section
variable {regs : String → UInt8} {stmts : List ILStatement} {i : Nat} {x y : String}

omit [Target] in
theorem Pair.start_store (h : Pair stmts i x y) : start stmts (i + 1) = start stmts i + 2 := start_succ h.load

/-- Inside the pair the operand keeps its value, up to the accumulator. -/
theorem Pair.step (hregs : Assigned regs stmts) (h : Pair stmts i x y) {t : Vm}
    (ht : start stmts i ≤ t.ip ∧ t.ip < start stmts (i + 1)) :
    ∃ u, next (linked regs stmts) t = some u ∧ u.ip = t.ip + 1 ∧
      incoming regs stmts i x u = incoming regs stmts i x t := by
  have hreg : (regs x).toNat < registerCount := hregs.lt (List.mem_of_getElem? h.load) rfl
  have hcode := stmt_codeAt regs h.load
  have hstore := h.start_store
  by_cases hfirst : t.ip = start stmts i
  · have hinst : (linked regs stmts)[t.ip]? = some ⟨.load, [.register (regs x), .signalName x]⟩ := by
      rw [hfirst]
      exact hcode.head
    have hip : (t.set (regs x) ((t.signals x).getD (.bool false))).advanceIp.ip = t.ip + 1 := by
      rw [Vm.advanceIp_ip, Vm.set_ip]
    refine ⟨_, next_loadSignal hinst hreg, hip, ?_⟩
    unfold incoming
    rw [if_neg (by omega), if_pos (by omega), if_pos hfirst, Vm.advanceIp_get, Vm.get_set_self _ _ _ hreg]
  · have hsecond : t.ip = start stmts i + 1 := by omega
    have hinst : (linked regs stmts)[t.ip]? = some ⟨.load, [.register crReg, .register (regs x)]⟩ := by
      rw [hsecond]
      exact hcode.tail.head
    have hip : (t.set crReg (t.get (regs x))).advanceIp.ip = t.ip + 1 := by
      rw [Vm.advanceIp_ip, Vm.set_ip]
    refine ⟨_, next_loadReg hinst (by decide) hreg, hip, ?_⟩
    unfold incoming
    rw [if_neg (by omega), if_neg (by omega), if_neg hfirst, if_pos hsecond, Vm.advanceIp_get,
      Vm.get_set_self _ _ _ (by decide)]

/-- From where control comes to the pair it gets to the store. -/
theorem Pair.run (hregs : Assigned regs stmts) (h : Pair stmts i x y) {u : Vm}
    (hu : start stmts i ≤ u.ip ∧ u.ip ≤ start stmts (i + 1)) :
    ∃ k w, RunN (next (linked regs stmts)) k u w ∧ w.ip = start stmts (i + 1) ∧
      w.get crReg = incoming regs stmts i x u := by
  have hstore := h.start_store
  have hlast : ∀ w : Vm, w.ip = start stmts (i + 1) → w.get crReg = incoming regs stmts i x w := by
    intro w hw
    unfold incoming
    rw [if_neg (by omega), if_neg (by omega)]
  -- the induction is on what is left of the pair
  induction hleft : start stmts (i + 1) - u.ip generalizing u with
  | zero =>
    have hip : u.ip = start stmts (i + 1) := by omega
    exact ⟨0, u, .refl u, hip, hlast u hip⟩
  | succ m ih =>
    obtain ⟨v, hnext, hip, hkeep⟩ := h.step hregs (t := u) ⟨hu.1, by omega⟩
    obtain ⟨k, w, hrun, hw, hvalue⟩ := @ih v ⟨by omega, by omega⟩ (by omega)
    exact ⟨k + 1, w, .step hnext hrun, hw, hvalue.trans hkeep⟩

/-- Every state of a run in the pair has the value with which control came to it. -/
theorem Pair.run_inside (hregs : Assigned regs stmts) (h : Pair stmts i x y) {vm₀ : Vm} (hfirst : vm₀.ip = 0)
    {p : HalValue → Prop} (hentry : ∀ u, Enters stmts (linked regs stmts) i vm₀ u → p (incoming regs stmts i x u)) :
    ∀ k u, RunN (next (linked regs stmts)) k vm₀ u → start stmts i ≤ u.ip ∧ u.ip ≤ start stmts (i + 1) →
      p (incoming regs stmts i x u) := by
  intro k
  induction k with
  | zero =>
    intro u hrun hu
    rw [← hrun.zero_inv, hfirst] at hu
    have := start_pos stmts i
    omega
  | succ k ih =>
    intro u hrun hu
    obtain ⟨t, ht, hnext⟩ := hrun.last
    by_cases hin : start stmts i ≤ t.ip ∧ t.ip < start stmts (i + 1)
    · obtain ⟨u', hnext', _, hkeep⟩ := h.step hregs hin
      rw [hnext] at hnext'
      cases hnext'
      rw [hkeep]
      exact ih t ht ⟨hin.1, Nat.le_of_lt hin.2⟩
    · exact hentry u ⟨k, t, ht, hnext, hin, hu⟩

/-- **A numeric operand** is stored as the number exactly if, whenever control comes to the pair, the value of its signal
(or, behind the first instruction, of its register) is that integer and the store names the signal. -/
theorem storesNumber_iff (hregs : Assigned regs stmts) (h : Pair stmts i x y) {vm₀ : Vm} (hfirst : vm₀.ip = 0) (n : Nat)
    (signal : String) :
    StoresNumber stmts (linked regs stmts) i n signal vm₀ ↔
      ∀ u, Enters stmts (linked regs stmts) i vm₀ u →
        y = signal ∧ integer? (incoming regs stmts i x u) = some (n : Int) := by
  have hcode : (linked regs stmts)[start stmts (i + 1)]? = some ⟨.store, [.signalName y, .register crReg]⟩ :=
    (stmt_codeAt regs h.store).head
  constructor
  · rintro hall u ⟨k, t, hrun, hnext, _, hu⟩
    obtain ⟨m, w, hrun', hw, hvalue⟩ := h.run hregs hu
    obtain ⟨hinst, hnumber⟩ := hall _ w ((hrun.snoc hnext).trans hrun') hw
    rw [hw, hcode] at hinst
    rw [hvalue] at hnumber
    cases hinst
    exact ⟨rfl, hnumber⟩
  · intro hentry k u hrun hip
    have hin : start stmts i ≤ u.ip ∧ u.ip ≤ start stmts (i + 1) := by
      have := h.start_store
      omega
    have hboth := h.run_inside hregs hfirst (p := fun v => y = signal ∧ integer? v = some (n : Int)) hentry k u hrun hin
    have hvalue : incoming regs stmts i x u = u.get crReg := by
      have := h.start_store
      unfold incoming
      rw [if_neg (by omega), if_neg (by omega)]
    rw [hip, hcode, hboth.1]
    exact ⟨rfl, hvalue ▸ hboth.2⟩

end

end Audesys.Il
