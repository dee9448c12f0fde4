import Audesys.St.Brackets
import Audesys.St.Correctness
import Audesys.St.Writes

/-!
# `St.Publishing` — registers and the signals published from them

A variable lives in a register, and a `Store` publishes it as a signal. Assignments end with their `Store`: on
every way through the code of one, nothing but the variable's register and scratch registers is written before it
(`Publishes`). A `FOR` writes its counter's register when it sets the start value and when it adds the step, and
does not publish it (`InCounting`). So the published value of a variable is up to date, or the run stands within
an assignment to it, as long as no loop counts the variable after its first assignment
(`published_current`).
-/

open List

namespace Audesys.St

open Audesys.Hal Audesys.Lib Codegen

variable [Target]
variable {inst : Instruction} {body : List Statement}

/-! ## On the way to a `Store` -/

/-- From `i` on, every way through the code leads to a `Store` that publishes the register `r` as `x`, and writes
    only that register and scratch registers before. -/
def Publishes (code : List Instruction) (x : String) (r : UInt8) (i : Nat) : Prop :=
  ∃ j, i ≤ j ∧ code[j]? = some (storeInst x r) ∧
    ∀ k, i ≤ k → k < j → ∃ inst, code[k]? = some inst ∧ Writes (Working r) inst ∧ Ahead j k inst

section
variable {code : List Instruction} {vm vm' : Vm} {x : String} {r : UInt8} {i : Nat}

/-- The instruction is the `Store`, or works on the register. -/
theorem Publishes.instruction (h : Publishes code x r i) :
    code[i]? = some (storeInst x r) ∨ ∃ inst, code[i]? = some inst ∧ Writes (Working r) inst := by
  obtain ⟨j, hij, hj, hway⟩ := h
  rcases Nat.eq_or_lt_of_le hij with rfl | hlt
  · exact .inl hj
  · obtain ⟨inst, hinst, hwrites, _⟩ := hway i (Nat.le_refl i) hlt
    exact .inr ⟨inst, hinst, hwrites⟩

/-- **A step on the way to a `Store`** publishes the register, or stays on the way. -/
theorem Publishes.step (h : Publishes code x r vm.ip) (hr : r.toNat < registerCount)
    (hnext : next code vm = some vm') :
    vm' = (vm.writeSignal x (vm.get r)).advanceIp ∨ (Frame (Working r) vm vm' ∧ Publishes code x r vm'.ip) := by
  obtain ⟨j, hij, hj, hway⟩ := h
  rcases Nat.eq_or_lt_of_le hij with rfl | hlt
  · rw [next_store hj hr, Option.some.injEq] at hnext
    exact .inl hnext.symm
  · obtain ⟨inst, hinst, hwrites, hahead⟩ := hway vm.ip (Nat.le_refl _) hlt
    have hrange : vm.ip < vm'.ip ∧ vm'.ip ≤ j := by
      rcases hwrites.ip hinst hnext with hip | ⟨t, hjump, hip⟩
      · omega
      · have := hahead t hjump
        omega
    exact .inr ⟨hwrites.frame hinst hnext, j, hrange.2, hj, fun k hk => hway k (by omega)⟩

end

/-! ## What an instruction of a program does -/

/-- The instruction at `i` publishes a variable or is on the way to that, writes scratch registers only, counts in
    a loop over a variable, or ends the run. -/
inductive Role (d : Decls) (code : List Instruction) (counts : String → Nat → Prop) (i : Nat) : Instruction → Prop
  | publish {x : String} {r : UInt8} {inst : Instruction} : d.registers x = some r → Publishes code x r i →
      Role d code counts i inst
  | scratch {inst : Instruction} : Writes (fun r => Scratch.all.has r) inst → Role d code counts i inst
  | count {x : String} {r : UInt8} {inst : Instruction} : d.registers x = some r → counts x i →
      Writes (Working r) inst → Role d code counts i inst
  | halt : Role d code counts i .halt

/-- The instruction at `i` has a role, and jumps at most to `hi`. -/
structure Plays (d : Decls) (code : List Instruction) (counts : String → Nat → Prop) (hi i : Nat)
    (inst : Instruction) : Prop where
  role : Role d code counts i inst
  under : Under hi inst

/-- The signal of the variable holds the value of its register, or the run is on the way to publish it. -/
def Coherent (d : Decls) (code : List Instruction) (x : String) (vm : Vm) : Prop :=
  ∀ v, vm.signals x = some v → ∃ r, d.registers x = some r ∧ (vm.get r = v ∨ Publishes code x r vm.ip)

section
variable {d : Decls} {code : List Instruction} {counts : String → Nat → Prop} {vm vm' : Vm} {x : String}

omit [Target] in
/-- The register of another variable is not worked on. -/
theorem VarDecls.not_working (hd : VarDecls d) {x y : String} {r r' : UInt8} (hx : d.registers x = some r)
    (hy : d.registers y = some r') (hne : y ≠ x) : ¬ Working r r' := by
  rintro (rfl | hscratch)
  · exact hne (hd.inj hy hx)
  · exact hd.not_has hy hscratch

/-- **A step outside the assignments to a variable** leaves its signal and its register alone, unless a loop
    counts it. -/
theorem Role.keeps (hd : VarDecls d) (hrole : Role d code counts vm.ip inst)
    (hinst : code[vm.ip]? = some inst) (hnext : next code vm = some vm')
    (hoff : ∀ r, d.registers x = some r → ¬ Publishes code x r vm.ip) :
    vm'.signals x = vm.signals x ∧ (counts x vm.ip ∨ ∀ r, d.registers x = some r → vm'.get r = vm.get r) := by
  have hframe : ∀ {y r}, Frame (Working r) vm vm' → d.registers y = some r → x ≠ y →
      vm'.signals x = vm.signals x ∧ ∀ r', d.registers x = some r' → vm'.get r' = vm.get r' :=
    fun hframe hy hne => ⟨by rw [hframe.signals], fun r' hr' => hframe.regs r' (hd.not_working hy hr' hne)⟩
  cases hrole with
  | @publish y r _ hy hpub =>
    have hne : x ≠ y := by
      rintro rfl
      exact hoff r hy hpub
    rcases hpub.step (hd.valid hy) hnext with rfl | ⟨hwork, _⟩
    · rw [Vm.advanceIp_signals, Vm.writeSignal_signals]
      exact ⟨if_neg hne, .inr fun _ _ => rfl⟩
    · exact (hframe hwork hy hne).imp id .inr
  | scratch hwrites =>
    have hwork := hwrites.frame hinst hnext
    exact ⟨by rw [hwork.signals], .inr fun r hr => hwork.regs r (hd.not_has hr)⟩
  | @count y r _ hy hcounts hwrites =>
    have hwork := hwrites.frame hinst hnext
    by_cases hxy : x = y
    · subst hxy
      exact ⟨by rw [hwork.signals], .inl hcounts⟩
    · exact (hframe hwork hy hxy).imp id .inr
  | halt =>
    rw [next_halt hinst] at hnext
    cases hnext

/-- A step goes to the next instruction or to the target of its jump. -/
theorem Role.ip (hd : VarDecls d) (hrole : Role d code counts vm.ip inst)
    (hinst : code[vm.ip]? = some inst) (hnext : next code vm = some vm') :
    vm'.ip = vm.ip + 1 ∨ ∃ t, JumpsTo inst t ∧ vm'.ip = t.toNat := by
  cases hrole with
  | publish hy hpub =>
    rcases hpub.instruction with hstore | ⟨inst', hinst', hwrites⟩
    · rw [next_store hstore (hd.valid hy), Option.some.injEq] at hnext
      subst hnext
      exact .inl rfl
    · rw [hinst] at hinst'
      cases hinst'
      exact hwrites.ip hinst hnext
  | scratch hwrites => exact hwrites.ip hinst hnext
  | count _ _ hwrites => exact hwrites.ip hinst hnext
  | halt =>
    rw [next_halt hinst] at hnext
    cases hnext

/-- **Coherence is kept** by every step that does not count a variable with a signal. -/
theorem Coherent.step (h : Coherent d code x vm) (hd : VarDecls d)
    (hrole : Role d code counts vm.ip inst) (hinst : code[vm.ip]? = some inst) (hnext : next code vm = some vm')
    (hquiet : counts x vm.ip → vm.signals x = none) : Coherent d code x vm' := by
  intro v hv
  by_cases hon : ∃ r, d.registers x = some r ∧ Publishes code x r vm.ip
  · -- within an assignment to the variable
    obtain ⟨r, hr, hpub⟩ := hon
    refine ⟨r, hr, ?_⟩
    rcases hpub.step (hd.valid hr) hnext with rfl | ⟨_, hpub'⟩
    · rw [Vm.advanceIp_signals, Vm.writeSignal_signals] at hv
      exact .inl (Option.some.inj ((if_pos rfl).symm.trans hv))
    · exact .inr hpub'
  · have hoff : ∀ r, d.registers x = some r → ¬ Publishes code x r vm.ip := fun r hr hpub => hon ⟨r, hr, hpub⟩
    obtain ⟨hsignal, hregister⟩ := hrole.keeps hd hinst hnext hoff
    rw [hsignal] at hv
    obtain ⟨r, hr, hcurrent⟩ := h v hv
    refine ⟨r, hr, .inl ?_⟩
    rcases hcurrent with hcurrent | hpub
    · rcases hregister with hcounts | hregister
      · rw [hquiet hcounts] at hv
        cases hv
      · rw [hregister r hr, hcurrent]
    · exact absurd hpub (hoff r hr)

/-- No assignment is under way where the run ends. -/
theorem Publishes.not_ends {r : UInt8} (h : Publishes code x r vm.ip)
    (hinst : code[vm.ip]? = some inst) : ¬ Ends vm inst := by
  rcases h.instruction with hstore | ⟨inst', hinst', hwrites⟩
  · rw [hinst, Option.some.injEq] at hstore
    subst hstore
    rintro (hop | ⟨hop, _⟩) <;> cases hop
  · rw [hinst, Option.some.injEq] at hinst'
    subst hinst'
    exact hwrites.not_ends

/-- Only a `Halt` ends the run. -/
theorem Role.eq_halt (hrole : Role d code counts vm.ip inst) (hinst : code[vm.ip]? = some inst)
    (hends : Ends vm inst) : inst = .halt := by
  cases hrole with
  | publish _ hpub => exact absurd hends (hpub.not_ends hinst)
  | scratch hwrites => exact absurd hends hwrites.not_ends
  | count _ _ hwrites => exact absurd hends hwrites.not_ends
  | halt => rfl

end

/-! ## Loops -/

/-- Index `i` lies in the code of a `FOR` over `x` at `b` that writes its register: in the code of the start value,
    or at the addition of the step, which is the last instruction but one. -/
def InCounting (d : Decls) (sc : Scratch) (x : String) : Statement → Nat → Nat → Prop
  | .forDo name start stop step body, b, i => name = x ∧ ∃ r cs c, d.registers x = some r ∧
      genExpr d start sc b r = some cs ∧ genStmt d sc (.forDo name start stop step body) b = some c ∧
      ((b ≤ i ∧ i < b + cs.length) ∨ i + 2 = b + c.length)
  | _, _, _ => False

/-- A loop in the body, at any depth, counts `x` at `i`. -/
def CountedIn (d : Decls) (sc : Scratch) (body : List Statement) (b : Nat) (x : String) (i : Nat) : Prop :=
  ∃ s b', (∀ outer, ∃ stop, Within d sc body b outer s b' stop) ∧ InCounting d sc x s b' i

/-- No function or function block is called in the body. -/
def NoCalls (body : List Statement) : Prop := ∀ name args, ¬ Occurs body (.funCall name args)

section
variable {d : Decls} {sc : Scratch} {s : Statement} {b b₀ i hi : Nat} {x : String} {rest : List Statement}
  {c cb : StmtCode} {code l : List Instruction} {counts counts' : String → Nat → Prop} {t : UInt32}

theorem CountedIn.head (h : CountedIn d sc [s] b x i) : CountedIn d sc (s :: rest) b x i := by
  obtain ⟨s', b', hwithin, hcounting⟩ := h
  refine ⟨s', b', fun outer => ?_, hcounting⟩
  obtain ⟨stop, hstop⟩ := hwithin outer
  exact ⟨stop, hstop.head⟩

theorem CountedIn.after (h : CountedIn d sc rest (b + c.length) x i) (hc : genStmt d sc s b = some c) :
    CountedIn d sc (s :: rest) b x i := by
  obtain ⟨s', b', hwithin, hcounting⟩ := h
  refine ⟨s', b', fun outer => ?_, hcounting⟩
  obtain ⟨stop, hstop⟩ := hwithin outer
  exact ⟨stop, .after hc hstop⟩

theorem CountedIn.inside (h : CountedIn d sc body b₀ x i) (hc : genStmt d sc s b = some c)
    (hpart : Part d sc s b body b₀) : CountedIn d sc (s :: rest) b x i := by
  obtain ⟨s', b', hwithin, hcounting⟩ := h
  refine ⟨s', b', fun outer => ?_, hcounting⟩
  obtain ⟨stop, hstop⟩ := hwithin (if s.isLoop then some (b + c.length) else outer)
  exact ⟨stop, .inside hc hpart hstop⟩

/-- The loop itself. -/
theorem CountedIn.here (h : InCounting d sc x s b i) : CountedIn d sc [s] b x i :=
  ⟨s, b, fun outer => ⟨outer, .here⟩, h⟩

theorem InCounting.eq_for (h : InCounting d sc x s b i) :
    ∃ start stop step body, s = .forDo x start stop step body := by
  cases s with
  | forDo name start stop step body =>
    obtain ⟨rfl, _⟩ := h
    exact ⟨start, stop, step, body, rfl⟩
  | _ => cases h

theorem NoCalls.head (h : NoCalls (s :: rest)) : NoCalls [s] := fun name args ho => h name args ho.head

theorem NoCalls.tail (h : NoCalls (s :: rest)) : NoCalls rest := fun name args ho => h name args (.after ho)

theorem NoCalls.inside (h : NoCalls [s]) (hmem : body ∈ s.bodies) : NoCalls body :=
  fun name args ho => h name args (.inside hmem ho)

theorem Plays.mono (h : Plays d code counts hi i inst)
    (hcounts : ∀ x, counts x i → counts' x i) : Plays d code counts' hi i inst := by
  refine ⟨?_, h.under⟩
  cases h.role with
  | publish hr h => exact .publish hr h
  | scratch h => exact .scratch h
  | count hr hx h => exact .count hr (hcounts _ hx) h
  | halt => exact .halt

theorem Mild.plays (h : Mild hi inst) : Plays d code counts hi i inst :=
  ⟨.scratch h.writes, h.under⟩

theorem plays_jump {n : Nat} (hlt : n < 2 ^ 32) (h : n ≤ hi) : Plays d code counts hi i (.jump (label n)) := by
  refine (mild_jump ?_).plays
  rwa [label_toNat hlt]

theorem each_mild (h : ∀ inst ∈ l, Mild hi inst) : Each (Plays d code counts hi) b l :=
  fun _ inst hk => (h inst (mem_of_getElem? hk)).plays

/-- Work on a register that ends with its `Store`. -/
theorem each_publish {r : UInt8} (hr : d.registers x = some r) (hat : CodeAt code b (l ++ [storeInst x r]))
    (hwrites : ∀ inst ∈ l, Writes (Working r) inst) (hahead : Each (Ahead (b + l.length)) b l)
    (hhi : b + l.length ≤ hi) : Each (Plays d code counts hi) b (l ++ [storeInst x r]) := by
  have hstore : code[b + l.length]? = some (storeInst x r) := hat.right.head
  have hway : ∀ k, b ≤ k → k < b + l.length →
      ∃ inst, code[k]? = some inst ∧ Writes (Working r) inst ∧ Ahead (b + l.length) k inst := by
    intro k hk hlt
    obtain ⟨k, rfl⟩ := Nat.exists_eq_add_of_le hk
    have hk' : k < l.length := by omega
    exact ⟨l[k], hat.left.get hk', hwrites _ (getElem_mem hk'), hahead k _ (getElem?_eq_getElem hk')⟩
  rw [each_append]
  constructor
  · intro k inst hk
    have hlt : k < l.length := (List.getElem?_eq_some_iff.1 hk).1
    refine ⟨.publish hr ⟨b + l.length, by omega, hstore, fun k' hk' => hway k' (by omega)⟩, ?_⟩
    exact (hahead k inst hk).under hhi
  · rw [each_cons]
    refine ⟨⟨.publish hr ⟨b + l.length, Nat.le_refl _, hstore, fun k' hk' hlt => ?_⟩, straight_storeInst.under⟩,
      each_nil⟩
    exact absurd hlt (by omega)

/-! ## Statements -/

/-- Every instruction of the statement has a role, and the jumps go at most to `hi`. -/
def StmtPlays (d : Decls) (sc : Scratch) (s : Statement) : Prop :=
  ∀ {code b c t hi}, genStmt d sc s b = some c → CodeAt code b (c.resolve t) → b + c.length ≤ hi → hi < 2 ^ 32 →
    t.toNat ≤ hi → NoCalls [s] → Each (Plays d code (CountedIn d sc [s] b) hi) b (c.resolve t)

def BodyPlays (d : Decls) (sc : Scratch) (body : List Statement) : Prop :=
  ∀ {code b c t hi}, genBody d sc body b = some c → CodeAt code b (c.resolve t) → b + c.length ≤ hi → hi < 2 ^ 32 →
    t.toNat ≤ hi → NoCalls body → Each (Plays d code (CountedIn d sc body b) hi) b (c.resolve t)

/-- The code of a body within its statement. -/
theorem BodyPlays.part (h : BodyPlays d sc body) (hpart : Part d sc s b body b₀) (hc : genStmt d sc s b = some c)
    (hcb : genBody d sc body b₀ = some cb) (hat : CodeAt code b (c.resolve t)) (hle : b + c.length ≤ hi)
    (hhi : hi < 2 ^ 32) (ht : t.toNat ≤ hi) (hcalls : NoCalls [s]) :
    Each (Plays d code (CountedIn d sc [s] b) hi) b₀
      (cb.resolve (if s.isLoop then label (b + c.length) else t)) := by
  obtain ⟨cb', hcode⟩ := hpart.partCode hc
  have hcb' := hcode.code
  rw [hcb] at hcb'
  cases hcb'
  have hlast := hcode.last
  have htarget : (if s.isLoop then label (b + c.length) else t).toNat ≤ hi := by
    split
    · rw [label_toNat (by omega)]
      exact hle
    · exact ht
  refine (h hcb (hcode.placed hat) (by omega) hhi htarget (hcalls.inside hpart.mem_bodies)).imp ?_
  intro i inst _ _ hplays
  exact hplays.mono fun x hx => hx.inside hc hpart

theorem assign_plays (name : String) (value : Expr) : StmtPlays d sc (.assign name value) := by
  intro code b c t hi hc hat hle hhi _ _
  simp only [genStmt, bind_some, Option.some.injEq] at hc
  obtain ⟨dest, hdest, cv, hcv, rfl⟩ := hc
  simp at hle
  rw [resolve_plain] at hat ⊢
  exact each_publish hdest hat (genExpr_writes value hcv) (genExpr_ahead value hcv (by omega)) (by omega)

/-- The code of the index and of the value writes scratch registers, and `StoreIndex` the array's. -/
theorem arrayAssign_plays (name : String) (index value : Expr) : StmtPlays d sc (.arrayAssign name index value) := by
  intro code b c t hi hc hat hle hhi _ _
  simp only [genStmt, bind_some, Option.some.injEq, Prod.exists] at hc
  obtain ⟨array, harray, idx, sc₁, hidx, ci, hci, val, sc₂, hval, cv, hcv, rfl⟩ := hc
  simp at hle
  have hsplit : ci ++ cv ++ [Instruction.storeIndex array idx val, storeInst name array] =
      (ci ++ cv ++ [Instruction.storeIndex array idx val]) ++ [storeInst name array] := by
    rw [List.append_assoc (ci ++ cv), singleton_append]
  rw [resolve_plain, hsplit] at hat ⊢
  refine each_publish harray hat ?_ ?_ ?_
  · simp only [forall_mem_append, forall_mem_singleton]
    exact ⟨⟨fun inst hinst => (genExpr_writes index hci inst hinst).scratch hidx,
      fun inst hinst => (genExpr_writes value hcv inst hinst).scratch hval⟩, .storeIndex (.inl rfl)⟩
  · simp [each_append, each_cons, each_nil, Straight.ahead, straight_storeIndex]
    exact ⟨each_ahead_mono (genExpr_ahead index hci (by omega)) (by omega),
      each_ahead_mono (genExpr_ahead value hcv (by omega)) (by omega)⟩
  · simp
    omega

theorem if_plays (cond : Expr) {thenBody elseBody : List Statement} (hthen : BodyPlays d sc thenBody)
    (helse : BodyPlays d sc elseBody) : StmtPlays d sc (.ifThen cond thenBody elseBody) := by
  intro code b c t hi hc hat hle hhi ht hcalls
  have hstmt := hc
  simp only [genStmt, bind_some, Option.some.injEq] at hc
  obtain ⟨cc, hcc, ct, hct, ce, hce, hc⟩ := hc
  have hlen : b + c.length = b + cc.length + 1 + ct.length + 1 + ce.length := by
    rw [← hc]
    simp
    omega
  have hfirst := hthen.part (.thenBody hcc) hstmt hct hat hle hhi ht hcalls
  have hsecond := helse.part (.elseBody hcc hct) hstmt hce hat hle hhi ht hcalls
  rw [← hc]
  simp only [resolve_append, resolve_plain, each_append, length_append, length_resolve, length_resolve_stmt,
    length_singleton, each_cons, each_nil, and_true, ← Nat.add_assoc]
  refine ⟨⟨⟨⟨?_, ?_⟩, hfirst⟩, ?_⟩, hsecond⟩
  · refine each_mild (genCond_mild cond hcc (by omega) hhi fun k => ?_)
    rw [Option.getD_some, label_toNat (by omega)]
    omega
  · exact plays_jump (by omega) (by omega)
  · exact plays_jump (by omega) (by omega)

omit [Target] in
/-- Where the jumps of the condition of a `WHILE` or `REPEAT` go. -/
theorem targets_le {n : Nat} (hn : n ≤ hi) (hhi : hi < 2 ^ 32) (k : CondHole) :
    ((if k = .onTrue then some (label n) else none).getD 0).toNat ≤ hi := by
  split
  · rw [Option.getD_some, label_toNat (by omega)]
    exact hn
  · exact Nat.zero_le hi

theorem while_plays (cond : Expr) (hbody : BodyPlays d sc body) : StmtPlays d sc (.whileDo cond body) := by
  intro code b c t hi hc hat hle hhi ht hcalls
  have hstmt := hc
  simp only [genStmt, bind_some, Option.some.injEq] at hc
  obtain ⟨cc, hcc, cb, hcb, hc⟩ := hc
  have hlen : b + c.length = b + cc.length + 1 + cb.length + 1 := by
    rw [← hc]
    simp
    omega
  have hloop := hbody.part (.whileBody hcc) hstmt hcb hat hle hhi ht hcalls
  rw [if_pos (by rfl), hlen] at hloop
  rw [← hc]
  simp only [resolve_append, resolve_plain, each_append, length_append, length_resolve, length_resolve_stmt,
    length_singleton, each_cons, each_nil, and_true, ← Nat.add_assoc]
  refine ⟨⟨⟨?_, ?_⟩, hloop⟩, ?_⟩
  · exact each_mild (genCond_mild cond hcc (by omega) hhi (targets_le (by omega) hhi))
  · exact plays_jump (by omega) (by omega)
  · exact plays_jump (by omega) (by omega)

theorem repeat_plays (cond : Expr) (hbody : BodyPlays d sc body) : StmtPlays d sc (.repeatUntil body cond) := by
  intro code b c t hi hc hat hle hhi ht hcalls
  have hstmt := hc
  simp only [genStmt, bind_some, Option.some.injEq] at hc
  obtain ⟨cb, hcb, cc, hcc, hc⟩ := hc
  have hlen : b + c.length = b + cb.length + cc.length + 1 := by
    rw [← hc]
    simp
    omega
  have hloop := hbody.part .repeatBody hstmt hcb hat hle hhi ht hcalls
  rw [if_pos (by rfl), hlen] at hloop
  rw [← hc]
  simp only [resolve_append, resolve_plain, each_append, length_append, length_resolve, length_resolve_stmt,
    each_cons, each_nil, and_true, ← Nat.add_assoc]
  refine ⟨⟨hloop, ?_⟩, ?_⟩
  · exact each_mild (genCond_mild cond hcc (by omega) hhi (targets_le (by omega) hhi))
  · exact plays_jump (by omega) (by omega)

/-- The counter is written by the start value and by the addition at the end; the bound and the step are computed in
    a scratch register. -/
theorem for_plays (x : String) (start stop : Expr) (step : Option Expr)
    (hbody : BodyPlays d sc body) : StmtPlays d sc (.forDo x start stop step body) := by
  intro code b c t hi hc hat hle hhi ht hcalls
  have hstmt := hc
  simp only [genStmt, bind_some, Option.some.injEq, Prod.exists] at hc
  obtain ⟨var, hvar, cs, hcs, s, sc₁, hs, ce, hce, cb, hcb, ct, hct, hc⟩ := hc
  have hlen : b + c.length = b + cs.length + ce.length + 2 + cb.length + ct.length + 2 := by
    rw [← hc]
    simp
    omega
  have hloop := hbody.part (.forBody hvar hcs hs hce) hstmt hcb hat hle hhi ht hcalls
  rw [if_pos (by rfl), hlen] at hloop
  have hcounting : ∀ i, (b ≤ i ∧ i < b + cs.length) ∨ i + 2 = b + c.length →
      CountedIn d sc [.forDo x start stop step body] b x i :=
    fun i hi => .here ⟨rfl, var, cs, c, hvar, hcs, hstmt, hi⟩
  have hscratch := Scratch.has_all (Scratch.alloc_taken hs).isFree
  have hstep : ∀ inst ∈ ct, Mild hi inst := by
    unfold genStep at hct
    split at hct
    · exact mild_of_scratch hs (genExpr_writes _ hct) (genExpr_ahead _ hct (by omega)) (by omega)
    · cases hct
      rw [forall_mem_singleton]
      exact ⟨.loadImm hscratch, straight_loadImm.under⟩
  rw [← hc]
  simp only [resolve_append, resolve_plain, each_append, length_append, length_resolve_stmt, length_cons,
    length_nil, each_cons, each_nil, and_true, ← Nat.add_assoc]
  refine ⟨⟨⟨?_, ?_, ?_, ?_⟩, hloop⟩, ?_, ?_, ?_⟩
  · intro k inst hk
    have hlt : k < cs.length := (List.getElem?_eq_some_iff.1 hk).1
    refine ⟨.count hvar (hcounting (b + k) (.inl ⟨Nat.le_add_right b k, by omega⟩)) ?_, ?_⟩
    · exact genExpr_writes start hcs inst (mem_of_getElem? hk)
    · exact (genExpr_ahead start hcs (by omega) k inst hk).under (by omega)
  · exact each_mild (mild_of_scratch hs (genExpr_writes stop hce) (genExpr_ahead stop hce (by omega)) (by omega))
  · exact ⟨.scratch (.cmp .gt), straight_cmp.under⟩
  · refine (mild_jumpIf ?_).plays
    rw [label_toNat (by omega)]
    omega
  · exact each_mild hstep
  · exact ⟨.count hvar (hcounting _ (.inr (by omega))) (.arith .add (.inl rfl)), straight_arith.under⟩
  · exact plays_jump (by omega) (by omega)

theorem ret_plays : StmtPlays d sc .ret := by
  intro code b c t hi hc _ _ _ _ _
  cases hc
  rw [resolve_plain, each_cons]
  exact ⟨⟨.halt, straight_halt.under⟩, each_nil⟩

theorem exit_plays : StmtPlays d sc .exit := by
  intro code b c t hi hc _ _ _ ht _
  cases hc
  rw [StmtCode.resolve, map_cons, each_cons]
  exact ⟨(mild_jump ht).plays, each_nil⟩

theorem funCall_plays (name : String) (args : List Expr) : StmtPlays d sc (.funCall name args) := by
  intro code b c t hi _ _ _ _ _ hcalls
  exact absurd .here (hcalls name args)

theorem body_plays_nil : BodyPlays d sc [] := by
  intro code b c t hi hc _ _ _ _ _
  cases hc
  exact each_nil

theorem body_plays_cons (hs : StmtPlays d sc s) (hrest : BodyPlays d sc rest) : BodyPlays d sc (s :: rest) := by
  intro code b c t hi hc hat hle hhi ht hcalls
  simp only [genBody, bind_some, Option.some.injEq] at hc
  obtain ⟨c₁, hc₁, c₂, hc₂, rfl⟩ := hc
  rw [length_append] at hle
  rw [resolve_append] at hat ⊢
  have hbehind := hat.right
  rw [length_resolve_stmt] at hbehind
  rw [each_append, length_resolve_stmt]
  constructor
  · refine (hs hc₁ hat.left (by omega) hhi ht hcalls.head).imp ?_
    intro i inst _ _ hplays
    exact hplays.mono fun x hx => hx.head
  · refine (hrest hc₂ hbehind (by omega) hhi ht hcalls.tail).imp ?_
    intro i inst _ _ hplays
    exact hplays.mono fun x hx => hx.after hc₁

/-! ### `CASE` -/

/-- The branches, once the jumps to the end go to `stop`. -/
def CasesPlay (d : Decls) (sc : Scratch) (var : UInt8) (cases : List (List Int64 × List Statement)) : Prop :=
  ∀ {code b c t hi} {stop : UInt32} (counts : String → Nat → Prop), genCases d sc var cases b = some c →
    CodeAt code b (StmtCode.resolve (c.map (Slot.fillNone retarget stop)) t) → b + c.length ≤ hi → hi < 2 ^ 32 →
    t.toNat ≤ hi → stop.toNat ≤ hi → (∀ br ∈ cases, NoCalls br.2) →
    (∀ body b₀ x i, BranchAt d sc var cases b body b₀ → CountedIn d sc body b₀ x i → counts x i) →
    Each (Plays d code counts hi) b (StmtCode.resolve (c.map (Slot.fillNone retarget stop)) t)

theorem genLabels_mild {var : UInt8} {vs : List Int64} {cl : StmtCode} {n : Nat}
    (h : genLabels sc var vs = some cl) (hn : n ≤ hi) (hhi : hi < 2 ^ 32) :
    ∀ inst ∈ cl.resolve (label n), Mild hi inst := by
  induction vs generalizing cl with
  | nil =>
    cases h
    exact forall_mem_nil _
  | cons v vs ih =>
    simp only [genLabels, bind_some, Option.some.injEq, Prod.exists] at h
    obtain ⟨s, _, hs, c, hc, rfl⟩ := h
    have hscratch := Scratch.has_all (Scratch.alloc_taken hs).isFree
    simp only [StmtCode.resolve, map_cons, Slot.resolve, retarget_jumpIf, forall_mem_cons]
    refine ⟨⟨.loadImm hscratch, straight_loadImm.under⟩, ⟨.cmp .eq, straight_cmp.under⟩, mild_jumpIf ?_, ih hc⟩
    rw [label_toNat (by omega)]
    exact hn

theorem cases_plays_nil (var : UInt8) : CasesPlay d sc var [] := by
  intro code b c t hi stop counts hc _ _ _ _ _ _ _
  cases hc
  exact each_nil

/-- Finished code stays as it is. -/
theorem resolve_fillNone_done (stop t : UInt32) :
    StmtCode.resolve ((l.map Slot.done).map (Slot.fillNone retarget stop)) t = l := by
  simp [StmtCode.resolve, Function.comp_def, Slot.resolve, Slot.fillNone]

theorem cases_plays_cons {var : UInt8} {values : List Int64}
    {rest : List (List Int64 × List Statement)} (hbody : BodyPlays d sc body) (hrest : CasesPlay d sc var rest) :
    CasesPlay d sc var ((values, body) :: rest) := by
  intro code b c t hi stop counts hc hat hle hhi ht hstop hcalls hbranch
  simp only [genCases, bind_some, Option.some.injEq] at hc
  obtain ⟨cl, hcl, cb, hcb, cr, hcr, hc⟩ := hc
  have hlen : b + c.length = b + cl.length + 1 + cb.length + 1 + cr.length := by
    rw [← hc]
    simp
    omega
  have hcode : StmtCode.resolve (c.map (Slot.fillNone retarget stop)) t =
      StmtCode.resolve cl (label (b + cl.length + 1)) ++ [.jump (label (b + cl.length + 1 + cb.length + 1))] ++
        cb.resolve t ++ [.jump stop] ++ StmtCode.resolve (cr.map (Slot.fillNone retarget stop)) t := by
    rw [← hc]
    simp only [map_append, resolve_append, resolve_fillNone_relabel, resolve_fillNone_done]
    rfl
  rw [hcode] at hat ⊢
  have hatBody := hat.left.left.right
  have hatRest := hat.right
  simp only [length_append, length_resolve_stmt, length_singleton, ← Nat.add_assoc] at hatBody hatRest
  have hone : ∃ cf, genCases d sc var [(values, body)] b = some cf ∧
      b + cf.length = b + cl.length + 1 + cb.length + 1 := by
    simp only [genCases, Option.bind_eq_bind, hcl, hcb, Option.bind_some]
    refine ⟨_, rfl, ?_⟩
    simp
    omega
  have hothers := hrest counts hcr hatRest (by omega) hhi ht hstop
    (fun br hbr => hcalls br (mem_cons_of_mem _ hbr)) (by
      -- the branches behind this one are branches of the whole
      rintro body' b₀ x i ⟨front, labels, after, cf, cl', rfl, hcf, hcl', rfl⟩
      obtain ⟨c₁, hc₁, hlen₁⟩ := hone
      refine hbranch body' _ x i ⟨(values, body) :: front, labels, after, c₁ ++ cf, cl', rfl, ?_, hcl', ?_⟩
      · simp only [genCases, Option.bind_eq_bind, hcl, hcb, Option.bind_some, Option.some.injEq] at hc₁ ⊢
        rw [hcf, Option.bind_some, ← hc₁, List.append_nil]
      · rw [length_append]
        omega)
  simp only [each_append, length_append, length_resolve_stmt, length_singleton, each_cons, each_nil,
    and_true, ← Nat.add_assoc]
  refine ⟨⟨⟨⟨?_, ?_⟩, ?_⟩, (mild_jump hstop).plays⟩, hothers⟩
  · exact each_mild (genLabels_mild hcl (by omega) hhi)
  · exact plays_jump (by omega) (by omega)
  · refine (hbody hcb hatBody (by omega) hhi ht (hcalls _ mem_cons_self)).imp ?_
    intro i inst _ _ hplays
    exact hplays.mono fun x hx => hbranch body _ x i ⟨[], values, rest, [], cl, rfl, rfl, hcl, rfl⟩ hx

theorem case_plays {x : String} {cases : List (List Int64 × List Statement)} {elseBody : List Statement}
    (hcases : ∀ var, CasesPlay d sc var cases) (helse : BodyPlays d sc elseBody) :
    StmtPlays d sc (.case x cases elseBody) := by
  intro code b c t hi hc hat hle hhi ht hcalls
  have hstmt := hc
  simp only [genStmt, bind_some, Option.some.injEq] at hc
  obtain ⟨var, hvar, cc, hcc, ce, hce, hc⟩ := hc
  have hlen : b + c.length = b + cc.length + ce.length := by
    rw [← hc]
    simp
    omega
  have hrest := helse.part (.caseElse hvar hcc) hstmt hce hat hle hhi ht hcalls
  rw [← hc] at hat ⊢
  rw [resolve_append] at hat ⊢
  rw [each_append, length_resolve_stmt, length_map]
  refine ⟨?_, hrest⟩
  refine hcases var _ hcc hat.left (by omega) hhi ht ?_ ?_ ?_
  · rw [label_toNat (by omega)]
    omega
  · intro br hbr
    refine hcalls.inside ?_
    simp only [Statement.bodies, mem_append, mem_map]
    exact .inl ⟨br, hbr, rfl⟩
  · rintro body b₀ y i ⟨front, labels, after, cf, cl, rfl, hcf, hcl, rfl⟩ hcounted
    exact hcounted.inside hstmt (.branch hvar hcf hcl)

/-! ### All statements -/

mutual

theorem stmt_plays : (s : Statement) → StmtPlays d sc s
  | .assign name value => assign_plays name value
  | .arrayAssign name index value => arrayAssign_plays name index value
  | .ifThen cond thenBody elseBody => if_plays cond (body_plays thenBody) (body_plays elseBody)
  | .whileDo cond body => while_plays cond (body_plays body)
  | .forDo x start stop step body => for_plays x start stop step (body_plays body)
  | .repeatUntil body cond => repeat_plays cond (body_plays body)
  | .ret => ret_plays
  | .exit => exit_plays
  | .case _ cases elseBody => case_plays (fun var => cases_plays cases var) (body_plays elseBody)
  | .funCall name args => funCall_plays name args

theorem body_plays : (body : List Statement) → BodyPlays d sc body
  | [] => body_plays_nil
  | s :: rest => body_plays_cons (stmt_plays s) (body_plays rest)

theorem cases_plays : (cases : List (List Int64 × List Statement)) → (var : UInt8) → CasesPlay d sc var cases
  | [], var => cases_plays_nil var
  | (_, body) :: rest, var => cases_plays_cons (body_plays body) (cases_plays rest var)

end

end

/-! ## Programs -/

/-- Index `i` of the program lies in the code of a `FOR` over `x` that writes its register. -/
def Counted (p : Program) (hp : HalProgram) (x : String) (i : Nat) : Prop :=
  ∃ s b stop, ProgramWithin p hp s b stop ∧ InCounting (.ofVariables p.vars) .all x s b i

/-- Whenever a run from the reset state halts, every signal that was written holds the value of its variable's
    register. -/
def SignalsCurrent (p : Program) (hp : HalProgram) (vm : Vm) : Prop :=
  ∀ vm', HaltsAt hp.instructions vm.reset vm' → ∀ x v, vm'.signals x = some v →
    ∃ r, (Decls.ofVariables p.vars).registers x = some r ∧ vm'.get r = v

section
variable {p : Program} {hp : HalProgram}

theorem occurs_nil {s : Statement} : ¬ Occurs [] s := by
  rintro ⟨⟩

theorem occurs_cons {s s' : Statement} {rest : List Statement} :
    Occurs (s :: rest) s' ↔ s' = s ∨ Occurs rest s' ∨ ∃ body ∈ s.bodies, Occurs body s' := by
  constructor
  · intro h
    cases h with
    | here => exact .inl rfl
    | after h => exact .inr (.inl h)
    | inside hmem h => exact .inr (.inr ⟨_, hmem, h⟩)
  · rintro (rfl | h | ⟨body, hmem, h⟩)
    · exact .here
    · exact .after h
    · exact .inside hmem h

theorem casesAreCore_mem {inLoop : Bool} {cases : List (List Int64 × List Statement)}
    (h : casesAreCore inLoop cases) {br : List Int64 × List Statement} (hbr : br ∈ cases) :
    bodyIsCore inLoop br.2 := by
  induction cases with
  | nil => cases hbr
  | cons first rest ih =>
    simp [casesAreCore] at h
    rcases mem_cons.1 hbr with rfl | hbr
    · exact h.1
    · exact ih h.2 hbr

/-- The statements of a core body are of the core. -/
theorem Occurs.isCore {s : Statement} (h : Occurs body s) {inLoop : Bool}
    (hcore : bodyIsCore inLoop body) : ∃ inLoop', s.isCore inLoop' := by
  induction h generalizing inLoop with
  | here =>
    rw [bodyIsCore, Bool.and_eq_true] at hcore
    exact ⟨inLoop, hcore.1⟩
  | after _ ih =>
    rw [bodyIsCore, Bool.and_eq_true] at hcore
    exact ih hcore.2
  | @inside s s' rest body hmem _ ih =>
    rw [bodyIsCore, Bool.and_eq_true] at hcore
    have hs := hcore.1
    cases s with
    | ifThen | whileDo | forDo | repeatUntil =>
      simp [Statement.isCore] at hs
      simp only [Statement.bodies, mem_cons, not_mem_nil, or_false] at hmem
      first
        | exact ih (hmem ▸ hs.2)
        | exact hmem.elim (fun heq => ih (heq ▸ hs.1.2)) fun heq => ih (heq ▸ hs.2)
        | exact ih (hmem ▸ hs.1)
    | case x cases elseBody =>
      simp [Statement.isCore] at hs
      simp only [Statement.bodies, mem_append, mem_map, mem_singleton] at hmem
      rcases hmem with ⟨br, hbr, rfl⟩ | rfl
      · exact ih (casesAreCore_mem hs.1 hbr)
      · exact ih hs.2
    | _ => cases hmem

theorem noCalls_of_core {inLoop : Bool} (hcore : bodyIsCore inLoop body) : NoCalls body := by
  intro name args hoccurs
  obtain ⟨_, h⟩ := hoccurs.isCore hcore
  cases h

/-- **The main body and its `Halt`.** -/
theorem program_plays (hok : compileAst p = .ok hp) (hlen : hp.instructions.length < 2 ^ 32)
    (hcalls : NoCalls p.body) : ∃ hi, hp.instructions[hi]? = some .halt ∧ ∀ i, i ≤ hi →
      ∃ inst, hp.instructions[i]? = some inst ∧
        Plays (.ofVariables p.vars) hp.instructions (Counted p hp) hi i inst := by
  obtain ⟨c, post, hc, hinst, _, _⟩ := compileAst_eq hok hlen
  have hat : CodeAt hp.instructions 0 (c.resolve 0) := ⟨[], .halt :: post, by rw [hinst 0]; rfl, rfl⟩
  have hbound : c.length < 2 ^ 32 := by
    have := hat.bound
    rw [length_resolve_stmt] at this
    omega
  have hhalt : hp.instructions[c.length]? = some .halt := by
    rw [hinst 0, getElem?_append_right (by rw [length_resolve_stmt]), length_resolve_stmt, Nat.sub_self]
    rfl
  refine ⟨c.length, hhalt, fun i hi => ?_⟩
  rcases Nat.eq_or_lt_of_le hi with rfl | hlt
  · exact ⟨.halt, hhalt, .halt, straight_halt.under⟩
  · have hplays := body_plays p.body hc hat (by omega) hbound (Nat.zero_le _) hcalls
    have hk : i < (c.resolve 0).length := by rwa [length_resolve_stmt]
    have hget := hat.get hk
    rw [Nat.zero_add] at hget
    refine ⟨_, hget, (hat.each hplays (Nat.zero_le i) (by omega) hget).mono ?_⟩
    rintro x ⟨s, b, hwithin, hcounting⟩
    obtain ⟨stop, hstop⟩ := hwithin none
    exact ⟨s, b, stop, ⟨p.body, 0, .inl ⟨rfl, rfl⟩, hstop⟩, hcounting⟩

/-- **What is published is current**, for a variable that no loop counts once it has a signal. -/
theorem published_current (hok : compileAst p = .ok hp) (hlen : hp.instructions.length < 2 ^ 32)
    (hcalls : NoCalls p.body) (vm : Vm) {n : Nat} {last vm' : Vm}
    (hrun : RunN (next hp.instructions) n vm.reset last) (hhalt : last.step hp.instructions = some (vm', .halted))
    {x : String} (hquiet : ∀ k mid, k < n → RunN (next hp.instructions) k vm.reset mid → Counted p hp x mid.ip →
      mid.signals x = none) :
    ∀ v, vm'.signals x = some v → ∃ r, (Decls.ofVariables p.vars).registers x = some r ∧ vm'.get r = v := by
  obtain ⟨_, _, _, _, _, hvars⟩ := compileAst_eq hok hlen
  have hd : VarDecls (.ofVariables p.vars) := varDecls_ofVariables hvars
  obtain ⟨hi, hend, hplays⟩ := program_plays hok hlen hcalls
  -- the run stays in the main body, and the variable is coherent all the way
  obtain ⟨hip, hcoherent⟩ : last.ip ≤ hi ∧ Coherent (.ofVariables p.vars) hp.instructions x last := by
    refine hrun.invariant_along (fun u => u.ip ≤ hi ∧ Coherent (.ofVariables p.vars) hp.instructions x u)
      ⟨Nat.zero_le hi, ?_⟩ ?_
    · intro v hv
      cases hv
    · rintro k u w hk hu hnext ⟨hip, hcoherent⟩
      obtain ⟨inst, hinst, hrole, hunder⟩ := hplays u.ip hip
      refine ⟨?_, hcoherent.step hd hrole hinst hnext (hquiet k u hk hu)⟩
      rcases hrole.ip hd hinst hnext with hip' | ⟨t, hjump, hip'⟩
      · have hne : u.ip ≠ hi := by
          intro heq
          rw [next_halt (heq ▸ hend)] at hnext
          cases hnext
        omega
      · have := hunder t hjump
        omega
  obtain ⟨inst, hinst, heffect⟩ := step_effect hhalt
  have hends : Ends last inst := heffect.ends.1 rfl
  obtain ⟨inst', hinst', hrole, _⟩ := hplays last.ip hip
  rw [hinst, Option.some.injEq] at hinst'
  subst hinst'
  have heq := hrole.eq_halt hinst hends
  subst heq
  rw [step_halt hinst, Option.some.injEq, Prod.mk.injEq] at hhalt
  obtain ⟨rfl, _⟩ := hhalt
  intro v hv
  obtain ⟨r, hr, hcurrent⟩ := hcoherent v hv
  refine ⟨r, hr, ?_⟩
  rcases hcurrent with hcurrent | hpub
  · exact hcurrent
  · exact absurd hends (hpub.not_ends hinst)

end

end Audesys.St

/-! ## Two programs -/

namespace Audesys.St

open Audesys.Hal Audesys.Lib Codegen

local instance releasePublishing : Target := host false

/-- `y := 0; FOR x := 1 TO 3 DO y := y + x; END_FOR` counts `x`, and publishes `y` only. -/
theorem published_current_sum : ∃ vm', HaltsAt (compiled sumProgram).instructions Vm.new.reset vm' ∧
    ∀ v, vm'.signals "y" = some v →
      ∃ r, (Decls.ofVariables sumProgram.vars).registers "y" = some r ∧ vm'.get r = v := by
  have hfinal : Final sumProgram.body sumFinal := ⟨4, .inl rfl⟩
  obtain ⟨vm', hhalts, _⟩ := stops_of_final (p := sumProgram) rfl rfl (by decide) Vm.new hfinal
  obtain ⟨n, last, hrun, hhalt⟩ := hhalts
  refine ⟨vm', ⟨n, last, hrun, hhalt⟩, published_current (p := sumProgram) rfl (by decide)
    (noCalls_of_core (show bodyIsCore false sumProgram.body from rfl)) Vm.new hrun hhalt ?_⟩
  rintro k mid _ _ ⟨s, b, stop, hwithin, hcounting⟩
  -- the only loop is over `x`
  obtain ⟨start, bound, step, body, rfl⟩ := hcounting.eq_for
  rcases hwithin.contains with hmain | ⟨f, hf, _⟩
  · simp [sumProgram, occurs_cons, occurs_nil, Statement.bodies] at hmain
  · cases hf

/-- `x := 5; FOR x := 1 TO 3 DO END_FOR` leaves 5 in the signal and 4 in the register. -/
theorem countProgram_not_current : ¬ ∀ (p : Program) (hp : HalProgram) (vm : Vm), (∀ v ∈ p.vars, v.varType = .dint) →
    NoCalls p.body → compileAst p = .ok hp → SignalsCurrent p hp vm := by
  intro hclaim
  have hfinal : Final countProgram.body countFinal := ⟨4, .inl rfl⟩
  obtain ⟨vm', hhalts, hsim⟩ := stops_of_final (p := countProgram) rfl rfl (by decide) Vm.new hfinal
  have hsignal : vm'.signals "x" = some (.s32 5) := by
    rw [hsim.signals]
    rfl
  obtain ⟨r, hr, hvalue⟩ := hclaim countProgram (compiled countProgram) Vm.new (by simp [countProgram])
    (noCalls_of_core (show bodyIsCore false countProgram.body from rfl)) rfl vm' hhalts "x" _ hsignal
  rw [hsim.regs "x" r hr] at hvalue
  exact absurd hvalue (by decide)

end Audesys.St
