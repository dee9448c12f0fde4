import Audesys.St.Backpatch

/-!
# `St.Obstacles` — where compilation stops

Compilation stops at the first obstacle it meets: a program it rejects with an error, an expression that needs a
scratch register when all three are in use, or an `EXIT` outside every loop. The obstacles of a program are read off
its syntax, in the order of compilation: what an expression needs depends on its shape and on how many scratch
registers are free where it starts, and at the start of a statement all three are. `StopsAt o r Q` ties a result to
obstacles: without one it is a value that meets `Q`, an error behind a rejection, and a panic behind the other two.
-/

namespace Audesys.St

open Audesys.Hal

variable [Target]

inductive Obstacle where
  | rejected
  | scratchOverflow
  | strayExit
  deriving DecidableEq

/-! ## Obstacles of expressions -/

/-- A scratch register is taken, and one fewer is free for what follows. -/
def needing (free : Nat) (o : Nat → List Obstacle) : List Obstacle :=
  match free with
  | 0 => [.scratchOverflow]
  | k + 1 => o k

def Decls.declared (d : Decls) (name : String) : List Obstacle :=
  if (d.registers name).isSome then [] else [.rejected]

/-- The right operand of a comparison is compiled first. -/
def cmpObstacles (left right : Nat → List Obstacle) (free : Nat) : List Obstacle :=
  needing free fun k => right k ++ needing k left

def Expr.obstacles (d : Decls) : Expr → Nat → List Obstacle
  | .intLiteral _, _ | .realLiteral _, _ | .boolLiteral _, _ => []
  | .var name, _ => d.declared name
  | .binary left op right, free =>
    if op.isArith then left.obstacles d free ++ needing free fun k => right.obstacles d k
    else if op.isCmp then cmpObstacles (left.obstacles d) (right.obstacles d) free
    else needing free fun k => left.obstacles d k ++ right.obstacles d k
  | .unary .neg inner, free => inner.obstacles d free ++ needing free fun _ => []
  | .unary .not inner, free => inner.obstacles d free
  | .arrayAccess name index, free => d.declared name ++ needing free fun k => index.obstacles d k
  | .fieldAccess name _, free =>
    d.declared name ++
      if isSrRs (d.varTypes name) then needing free fun _ => []
      else if isEdge (d.varTypes name) then []
      else needing free fun _ => []

/-- The default arm of `compile_bool_cond` takes a second register for `TRUE`. -/
def truthObstacles (value : Nat → List Obstacle) (free : Nat) : List Obstacle :=
  needing free fun k => value k ++ needing k fun _ => []

def Expr.condObstacles (d : Decls) : Expr → Nat → List Obstacle
  | .binary left op right, free =>
    if op.isCmp then cmpObstacles (left.obstacles d) (right.obstacles d) free
    else if op = .and ∨ op = .or then left.condObstacles d free ++ right.condObstacles d free
    else truthObstacles (Expr.obstacles d (.binary left op right)) free
  | .unary .not inner, free => inner.condObstacles d free
  | e, free => truthObstacles (e.obstacles d) free

/-- How many scratch registers the expression takes at once. -/
def Expr.need (d : Decls) : Expr → Nat
  | .intLiteral _ | .realLiteral _ | .boolLiteral _ | .var _ => 0
  | .binary left op right =>
    if op.isArith then max (left.need d) (right.need d + 1)
    else if op.isCmp then max (right.need d + 1) (left.need d + 2)
    else max (left.need d) (right.need d) + 1
  | .unary .neg inner => max (inner.need d) 1
  | .unary .not inner => inner.need d
  | .arrayAccess _ index => index.need d + 1
  | .fieldAccess name _ => if isSrRs (d.varTypes name) ∨ ¬ isEdge (d.varTypes name) then 1 else 0

/-- Every name that is read has a register. -/
def Expr.Declared (d : Decls) : Expr → Prop
  | .intLiteral _ | .realLiteral _ | .boolLiteral _ => True
  | .var name | .fieldAccess name _ => (d.registers name).isSome
  | .binary left _ right => left.Declared d ∧ right.Declared d
  | .unary _ inner => inner.Declared d
  | .arrayAccess name index => (d.registers name).isSome ∧ index.Declared d

omit [Target] in
theorem needing_eq_nil {free : Nat} {o : Nat → List Obstacle} : needing free o = [] ↔ ∃ k, free = k + 1 ∧ o k = [] := by
  cases free with
  | zero => simp [needing]
  | succ k => simp [needing]

omit [Target] in
theorem declared_eq_nil {d : Decls} {name : String} : d.declared name = [] ↔ (d.registers name).isSome := by
  unfold Decls.declared
  split <;> simp_all

/-- **An expression meets no obstacle** exactly if its names are declared and it needs no more than is free. -/
theorem obstacles_eq_nil_iff {d : Decls} (e : Expr) (free : Nat) :
    e.obstacles d free = [] ↔ e.Declared d ∧ e.need d ≤ free := by
  induction e generalizing free with
  | intLiteral | realLiteral | boolLiteral => simp [Expr.obstacles, Expr.Declared, Expr.need]
  | var name => simp [Expr.obstacles, Expr.Declared, Expr.need, declared_eq_nil]
  | binary left op right hleft hright =>
    unfold Expr.obstacles Expr.Declared Expr.need
    split
    · simp only [List.append_eq_nil_iff, needing_eq_nil, hleft, hright]
      constructor
      · rintro ⟨⟨hl, hln⟩, k, rfl, hr, hrn⟩
        exact ⟨⟨hl, hr⟩, by omega⟩
      · rintro ⟨⟨hl, hr⟩, hn⟩
        -- the right side is compiled with one register less
        exact ⟨⟨hl, by omega⟩, free - 1, by omega, hr, by omega⟩
    · split
      · simp only [cmpObstacles, List.append_eq_nil_iff, needing_eq_nil, hleft, hright]
        constructor
        · rintro ⟨k, rfl, ⟨hr, hrn⟩, k', rfl, hl, hln⟩
          exact ⟨⟨hl, hr⟩, by omega⟩
        · rintro ⟨⟨hl, hr⟩, hn⟩
          exact ⟨free - 1, by omega, ⟨hr, by omega⟩, free - 2, by omega, hl, by omega⟩
      · simp only [List.append_eq_nil_iff, needing_eq_nil, hleft, hright]
        constructor
        · rintro ⟨k, rfl, ⟨hl, hln⟩, hr, hrn⟩
          exact ⟨⟨hl, hr⟩, by omega⟩
        · rintro ⟨⟨hl, hr⟩, hn⟩
          exact ⟨free - 1, by omega, ⟨hl, by omega⟩, hr, by omega⟩
  | unary op inner ih =>
    cases op with
    | neg =>
      simp only [Expr.obstacles, Expr.Declared, Expr.need, List.append_eq_nil_iff, needing_eq_nil, ih]
      constructor
      · rintro ⟨⟨hi, hn⟩, k, rfl, _⟩
        exact ⟨hi, by omega⟩
      · rintro ⟨hi, hn⟩
        exact ⟨⟨hi, by omega⟩, free - 1, by omega, trivial⟩
    | not => exact ih free
  | arrayAccess name index ih =>
    simp [Expr.obstacles, Expr.Declared, Expr.need, needing_eq_nil, declared_eq_nil, ih]
    constructor
    · rintro ⟨hname, k, rfl, hi, hn⟩
      exact ⟨⟨hname, hi⟩, by omega⟩
    · rintro ⟨⟨hname, hi⟩, hn⟩
      exact ⟨hname, free - 1, by omega, hi, by omega⟩
  | fieldAccess name field =>
    simp only [Expr.obstacles, Expr.Declared, Expr.need, List.append_eq_nil_iff, declared_eq_nil]
    refine and_congr_right fun _ => ?_
    split
    · rename_i hsr
      rw [if_pos (.inl hsr), needing_eq_nil]
      exact ⟨fun ⟨k, hk, _⟩ => by omega, fun h => ⟨free - 1, by omega, rfl⟩⟩
    · rename_i hsr
      split
      · rename_i hedge
        rw [if_neg (by simp [hsr, hedge])]
        simp
      · rename_i hedge
        rw [if_pos (.inr hedge), needing_eq_nil]
        exact ⟨fun ⟨k, hk, _⟩ => by omega, fun h => ⟨free - 1, by omega, rfl⟩⟩

/-! ## Obstacles of statements and programs -/

/-- A check of the code generator that fails is a rejection. -/
def checked {α : Type} (check : Except Stop α) : List Obstacle := if check.isOk then [] else [.rejected]

def inputObstacles (d : Decls) (free : Nat) : Expr → List Obstacle
  | .var name => d.declared name
  | e => e.obstacles d free

/-- A call takes one or two of the three registers; of the arguments of a function only four are compiled. -/
def callObstacles (d : Decls) (name : String) (args : List Expr) : List Obstacle :=
  let vt := d.varTypes name
  let edge (arg0 : Expr) := d.declared name ++ inputObstacles d 2 arg0
  let generic := (args.take 4).flatMap (·.obstacles d 3)
  match args with
  | arg0 :: arg1 :: rest =>
    if isTimer vt then d.declared name ++ inputObstacles d 2 arg0
    else if isCounter vt then d.declared name ++ inputObstacles d 2 arg0 ++ (rest.take 1).flatMap (inputObstacles d 1)
    else if isSrRs vt then d.declared name ++ inputObstacles d 2 arg0 ++ inputObstacles d 1 arg1
    else if isEdge vt then edge arg0
    else generic
  | [arg0] => if isEdge vt then edge arg0 else generic
  | [] => generic

/-- The variable of a `FOR` has type `INT` or `DINT`. -/
def counterObstacles (d : Decls) (name : String) : List Obstacle :=
  if d.varTypes name = some .int ∨ d.varTypes name = some .dint then [] else [.rejected]

mutual

def Statement.obstacles (d : Decls) (inLoop : Bool) : Statement → List Obstacle
  | .assign name value => checked (checkAssign d name value) ++ d.declared name ++ value.obstacles d 3
  | .arrayAssign name index value => d.declared name ++ index.obstacles d 2 ++ value.obstacles d 1
  | .ifThen condition thenBody elseBody =>
    checked (checkCondition d condition "IF") ++ condition.condObstacles d 3 ++ bodyObstacles d inLoop thenBody ++
      bodyObstacles d inLoop elseBody
  | .whileDo condition body =>
    checked (checkCondition d condition "WHILE") ++ condition.condObstacles d 3 ++ bodyObstacles d true body
  | .forDo variableName start stop step body =>
    counterObstacles d variableName ++ d.declared variableName ++ start.obstacles d 3 ++ stop.obstacles d 2 ++
      bodyObstacles d true body ++ step.toList.flatMap (·.obstacles d 2)
  | .repeatUntil body condition =>
    checked (checkCondition d condition "REPEAT") ++ bodyObstacles d true body ++ condition.condObstacles d 3
  | .ret => []
  | .exit => if inLoop then [] else [.strayExit]
  | .case variableName cases elseBody =>
    d.declared variableName ++ casesObstacles d inLoop cases ++ bodyObstacles d inLoop elseBody
  | .funCall name args => callObstacles d name args

def bodyObstacles (d : Decls) (inLoop : Bool) : List Statement → List Obstacle
  | [] => []
  | s :: rest => s.obstacles d inLoop ++ bodyObstacles d inLoop rest

def casesObstacles (d : Decls) (inLoop : Bool) : List (List Int64 × List Statement) → List Obstacle
  | [] => []
  | (_, body) :: rest => bodyObstacles d inLoop body ++ casesObstacles d inLoop rest

end

/-- The obstacles of a program in the order of compilation: too many variables, the main body, the functions. -/
def Program.obstacles (p : Program) : List Obstacle :=
  (if p.vars.length > maxVarRegs then [.rejected] else []) ++ bodyObstacles (.ofVariables p.vars) false p.body ++
    p.functions.flatMap fun f => bodyObstacles (.ofVariables p.vars) false f.body

/-! ## Results -/

def StopsAt {α : Type} (o : List Obstacle) (r : Except Stop α) (Q : α → Prop) : Prop :=
  match o with
  | [] => ∃ a, r = .ok a ∧ Q a
  | .rejected :: _ => ∃ e, r = .error (.error e)
  | .scratchOverflow :: _ | .strayExit :: _ => r = .error .panic

section
variable {α β : Type} {o o' : List Obstacle} {r : Except Stop α} {f : α → Except Stop β} {Q : α → Prop} {R : β → Prop}

section
omit [Target]

theorem StopsAt.ok {a : α} (h : Q a) : StopsAt [] (.ok a) Q := ⟨a, rfl, h⟩

theorem StopsAt.bind (h : StopsAt o r Q) (hf : ∀ a, Q a → StopsAt o' (f a) R) : StopsAt (o ++ o') (r >>= f) R := by
  match o with
  | [] =>
    obtain ⟨a, rfl, ha⟩ := h
    exact hf a ha
  | .rejected :: _ =>
    obtain ⟨e, rfl⟩ := h
    exact ⟨e, rfl⟩
  | .scratchOverflow :: _ =>
    obtain rfl : r = .error .panic := h
    rfl
  | .strayExit :: _ =>
    obtain rfl : r = .error .panic := h
    rfl

theorem StopsAt.mono {Q' : α → Prop} (h : StopsAt o r Q) (himp : ∀ a, Q a → Q' a) : StopsAt o r Q' := by
  match o with
  | [] =>
    obtain ⟨a, rfl, ha⟩ := h
    exact ⟨a, rfl, himp a ha⟩
  | .rejected :: _ => exact h
  | .scratchOverflow :: _ => exact h
  | .strayExit :: _ => exact h

/-- The last step of a computation meets no obstacle. -/
theorem StopsAt.finish (h : StopsAt o r Q) {g : α → β} (hg : ∀ a, Q a → R (g a)) :
    StopsAt o (r >>= fun a => .ok (g a)) R := by
  rw [← List.append_nil o]
  exact h.bind fun a ha => StopsAt.ok (hg a ha)

end

/-- The result is a value or an error, not a panic. -/
def Returns {α : Type} (r : Except Stop α) : Prop := (∃ a, r = .ok a) ∨ ∃ e, r = .error (.error e)

omit [Target] in
theorem StopsAt.returns_iff (h : StopsAt o r Q) : Returns r ↔ ∀ x ∈ o.head?, x = .rejected := by
  match o with
  | [] =>
    obtain ⟨a, rfl, _⟩ := h
    simp [Returns]
  | .rejected :: _ =>
    obtain ⟨e, rfl⟩ := h
    simp [Returns]
  | .scratchOverflow :: _ =>
    obtain rfl : r = .error .panic := h
    simp [Returns]
  | .strayExit :: _ =>
    obtain rfl : r = .error .panic := h
    simp [Returns]

end

/-! ## Checks -/

section
variable {d : Decls}

section
omit [Target]

theorem bind_ne_panic {α β : Type} {r : Except Stop α} {f : α → Except Stop β} (h : r ≠ .error .panic)
    (hf : ∀ a, f a ≠ .error .panic) : (r >>= f) ≠ .error .panic := by
  cases r with
  | ok a => exact hf a
  | error s => exact fun hs => h (congrArg Except.error (Except.error.inj hs))

theorem lookup_ne_panic (name : String) : d.lookup name ≠ .error .panic := by
  unfold Decls.lookup
  split <;> nofun

theorem map_lookup_ne_panic (g : VarType → VarType) (name : String) :
    (d.lookup name).map g ≠ .error .panic := by
  unfold Decls.lookup
  split <;> nofun

end

theorem typeOfExpr_ne_panic (e : Expr) : typeOfExpr d e ≠ .error .panic := by
  induction e with
  | intLiteral | realLiteral | boolLiteral => nofun
  | var name => exact lookup_ne_panic name
  | arrayAccess name index => exact map_lookup_ne_panic _ name
  | fieldAccess name field => exact map_lookup_ne_panic _ name
  | binary left op right hleft hright =>
    refine bind_ne_panic hleft fun lt => bind_ne_panic hright fun rt => ?_
    repeat' split
    all_goals nofun
  | unary op inner ih =>
    cases op with
    | neg =>
      refine bind_ne_panic ih fun t => ?_
      split <;> nofun
    | not =>
      refine bind_ne_panic ih fun t => ?_
      split <;> nofun

theorem checkAssign_ne_panic (name : String) (value : Expr) : checkAssign d name value ≠ .error .panic := by
  refine bind_ne_panic (lookup_ne_panic name) fun expected => ?_
  split
  · split <;> nofun
  · split <;> nofun
  · refine bind_ne_panic (typeOfExpr_ne_panic _) fun got => ?_
    split <;> nofun

theorem checkCondition_ne_panic (e : Expr) (context : String) : checkCondition d e context ≠ .error .panic := by
  refine bind_ne_panic (typeOfExpr_ne_panic e) fun t => ?_
  split <;> nofun

omit [Target] in
theorem stopsAt_checked {α : Type} {r : Except Stop α} (h : r ≠ .error .panic) :
    StopsAt (checked r) r fun _ => True := by
  unfold checked
  match r with
  | .ok a => exact .ok trivial
  | .error (.error e) => exact ⟨e, rfl⟩
  | .error .panic => exact absurd rfl h

end

/-! ## What a piece of code keeps -/

/-- The declarations, the free scratch registers and the number of enclosing loops. -/
structure SameFrame (cg cg' : Codegen) : Prop where
  decls : cg'.decls = cg.decls
  scratch : cg'.scratch = cg.scratch
  depth : cg'.loopExits.length = cg.loopExits.length

/-- The number of free scratch registers. -/
def Scratch.count (sc : Scratch) : Nat := sc.s0.toNat + sc.s1.toNat + sc.s2.toNat

/-- The register `reg` was taken in `cg`, and nothing else happened. -/
structure Allocated (cg : Codegen) (reg : UInt8) (cg' : Codegen) : Prop where
  decls : cg'.decls = cg.decls
  free : cg'.scratch.free reg = cg.scratch
  count : cg.scratch.count = cg'.scratch.count + 1
  depth : cg'.loopExits.length = cg.loopExits.length

section
variable {cg cg₁ cg₂ cg₃ : Codegen} {reg : UInt8} {d : Decls}

namespace SameFrame

theorem refl (cg : Codegen) : SameFrame cg cg := ⟨rfl, rfl, rfl⟩

theorem trans (h₁ : SameFrame cg cg₁) (h₂ : SameFrame cg₁ cg₂) : SameFrame cg cg₂ :=
  ⟨h₂.decls.trans h₁.decls, h₂.scratch.trans h₁.scratch, h₂.depth.trans h₁.depth⟩

theorem emit (h : SameFrame cg cg₁) (inst : Instruction) : SameFrame cg (cg₁.emit inst) := ⟨h.decls, h.scratch, h.depth⟩

theorem patchJump (h : SameFrame cg cg₁) (i t : UInt32) : SameFrame cg (cg₁.patchJump i t) := ⟨h.decls, h.scratch, h.depth⟩

theorem patchJumps (h : SameFrame cg cg₁) (js : List UInt32) (t : UInt32) : SameFrame cg (cg₁.patchJumps js t) := by
  rw [Codegen.patchJumps_eq]
  exact ⟨h.decls, h.scratch, h.depth⟩

/-- A loop that was entered is left again. -/
theorem popLoop (h : SameFrame cg.pushLoop cg₁) : SameFrame cg cg₁.popLoop := by
  have hdepth : cg₁.loopExits.length = cg.loopExits.length + 1 := h.depth
  unfold Codegen.popLoop
  cases hexits : cg₁.loopExits with
  | nil => rw [hexits] at hdepth; cases hdepth
  | cons exits outer =>
    rw [hexits, List.length_cons, Nat.add_right_cancel_iff] at hdepth
    have hframe : SameFrame cg { cg₁ with loopExits := outer } := ⟨h.decls, h.scratch, hdepth⟩
    exact hframe.patchJumps _ _

end SameFrame

theorem Allocated.release (h : Allocated cg reg cg₁) (hkept : SameFrame cg₁ cg₂) : SameFrame cg (cg₂.freeScratch reg) where
  decls := hkept.decls.trans h.decls
  scratch := by
    show cg₂.scratch.free reg = cg.scratch
    rw [hkept.scratch, h.free]
  depth := hkept.depth.trans h.depth

/-- Of two registers the one that was taken first may be given back first. -/
theorem Allocated.release_both {reg' : UInt8} {cg₄ : Codegen} (h₁ : Allocated cg reg cg₁) (h₂ : SameFrame cg₁ cg₂)
    (h₃ : Allocated cg₂ reg' cg₃) (h₄ : SameFrame cg₃ cg₄) :
    SameFrame cg ((cg₄.freeScratch reg).freeScratch reg') where
  decls := h₄.decls.trans (h₃.decls.trans (h₂.decls.trans h₁.decls))
  scratch := by
    have hswap (sc : Scratch) : (sc.free reg).free reg' = (sc.free reg').free reg := by
      simp only [Scratch.free, Scratch.mk.injEq]
      exact ⟨Bool.or_right_comm .., Bool.or_right_comm .., Bool.or_right_comm ..⟩
    show (cg₄.scratch.free reg).free reg' = cg.scratch
    rw [hswap, h₄.scratch, h₃.free, h₂.scratch, h₁.free]
  depth := h₄.depth.trans (h₃.depth.trans (h₂.depth.trans h₁.depth))

theorem allocated_of_alloc {sc : Scratch} (h : cg.scratch.alloc = some (reg, sc)) :
    Allocated cg reg { cg with scratch := sc } := by
  obtain ⟨d, insts, ⟨s0, s1, s2⟩, exits⟩ := cg
  cases s0 <;> cases s1 <;> cases s2 <;> cases h <;> exact ⟨rfl, rfl, rfl, rfl⟩

omit [Target] in
theorem alloc_eq_none {sc : Scratch} (h : sc.alloc = none) : sc.count = 0 := by
  obtain ⟨s0, s1, s2⟩ := sc
  cases s0 <;> cases s1 <;> cases s2 <;> first | rfl | cases h

/-- A scratch register is taken, or there is none. -/
theorem stopsAt_alloc {α : Type} {o : Nat → List Obstacle} {f : UInt8 × Codegen → Except Stop α} {R : α → Prop}
    (h : ∀ reg cg', Allocated cg reg cg' → StopsAt (o cg'.scratch.count) (f (reg, cg')) R) :
    StopsAt (needing cg.scratch.count o) (cg.allocScratch >>= f) R := by
  unfold Codegen.allocScratch
  cases halloc : cg.scratch.alloc with
  | none =>
    rw [alloc_eq_none halloc]
    rfl
  | some taken =>
    obtain ⟨reg, sc⟩ := taken
    have halloc' := allocated_of_alloc halloc
    rw [halloc'.count]
    exact h reg _ halloc'

theorem stopsAt_alloc_succ {α : Type} {o : List Obstacle} {f : UInt8 × Codegen → Except Stop α} {R : α → Prop} {n : Nat}
    (hcount : cg.scratch.count = n + 1)
    (h : ∀ reg cg', Allocated cg reg cg' → cg'.scratch.count = n → StopsAt o (f (reg, cg')) R) :
    StopsAt o (cg.allocScratch >>= f) R := by
  have hneeding : StopsAt (needing cg.scratch.count fun k => if k = n then o else []) (cg.allocScratch >>= f) R :=
    stopsAt_alloc fun reg cg' h' => by
      have hn : cg'.scratch.count = n := by
        have := h'.count
        omega
      rw [if_pos hn]
      exact h reg cg' h' hn
  rw [hcount] at hneeding
  simpa [needing] using hneeding

theorem stopsAt_varReg (hd : cg.decls = d) (name : String) :
    StopsAt (d.declared name) (cg.varReg name) fun _ => True := by
  subst hd
  unfold Decls.declared Codegen.varReg
  cases cg.decls.registers name with
  | none => exact ⟨_, rfl⟩
  | some r => exact .ok trivial

end

end Audesys.St
