import Audesys.St.Bounds

/-!
# `St.Brackets` — where the jumps of a program go

In a compiled program every jump should end up within the statement it was emitted for, or, for an `EXIT`,
behind the innermost loop (`Bracketed`). The one thing missing is a list: `WHILE` and `REPEAT` patch the jumps
that their condition takes when it is true, and the jumps of the other list keep their placeholder.
`brackets_iff` says that nothing else goes wrong. The converse needs that such a placeholder is never mistaken
for the jump back of a loop at instruction 0 (`InCondition.not_last`).
-/

open List

namespace Audesys.St

open Audesys.Hal Audesys.Lib Codegen

variable [Target]

/-! ## Two statements of a body -/

/-- Index `i` lies in the code of the condition of a `WHILE` or `REPEAT` at `b`. -/
def InCondition (d : Decls) (sc : Scratch) : Statement → Nat → Nat → Prop
  | .whileDo condition _, b, i => ∃ cc, genCond d condition sc b = some cc ∧ b ≤ i ∧ i < b + cc.length
  | .repeatUntil body condition, b, i => ∃ cb cc, genBody d sc body b = some cb ∧
      genCond d condition sc (b + cb.length) = some cc ∧ b + cb.length ≤ i ∧ i < b + cb.length + cc.length
  | _, _, _ => False

section
variable {d : Decls} {sc : Scratch} {s s' : Statement} {b b' i : Nat} {body : List Statement} {c : StmtCode}
  {outer stop stop' : Option Nat}

theorem Within.range (h : Within d sc body b outer s b' stop) (hc : genBody d sc body b = some c) :
    ∃ c', genStmt d sc s b' = some c' ∧ b ≤ b' ∧ b' + c'.length ≤ b + c.length := by
  induction h generalizing c with
  | here =>
    simp only [genBody, bind_some, Option.some.injEq] at hc
    obtain ⟨c₁, hc₁, c₂, _, rfl⟩ := hc
    exact ⟨c₁, hc₁, Nat.le_refl _, by rw [length_append]; omega⟩
  | after hs _ ih =>
    simp [hs, Option.bind_eq_some_iff] at hc
    obtain ⟨c₂, hc₂, rfl⟩ := hc
    obtain ⟨c', hc', hlo, hhi⟩ := ih hc₂
    exact ⟨c', hc', by omega, by rw [length_append]; omega⟩
  | inside hs hpart _ ih =>
    simp [hs, Option.bind_eq_some_iff] at hc
    obtain ⟨c₂, _, rfl⟩ := hc
    obtain ⟨cb, hcb⟩ := hpart.partCode hs
    obtain ⟨c', hc', hlo, hhi⟩ := ih hcb.code
    have hfirst := hcb.first
    have hlast := hcb.last
    exact ⟨c', hc', by omega, by rw [length_append]; omega⟩

theorem length_loop_pos (hc : genStmt d sc s b = some c) (hloop : s.isLoop) : 0 < c.length := by
  cases s with
  | whileDo cond body =>
    simp only [genStmt, bind_some, Option.some.injEq] at hc
    obtain ⟨cc, _, cb, _, rfl⟩ := hc
    simp only [plain, length_append, length_map, length_singleton]
    omega
  | forDo x start stop step body =>
    simp only [genStmt, bind_some, Option.some.injEq, Prod.exists] at hc
    obtain ⟨_, _, _, _, _, _, _, _, _, _, _, _, _, rfl⟩ := hc
    simp only [plain, length_append, length_map, length_cons]
    omega
  | repeatUntil body cond =>
    simp only [genStmt, bind_some, Option.some.injEq] at hc
    obtain ⟨cb, _, cc, _, rfl⟩ := hc
    simp only [plain, length_append, length_map, length_singleton]
    omega
  | _ => simp [Statement.isLoop] at hloop

/-- A condition lies before the last instruction of its statement and outside the body. -/
theorem InCondition.place (h : InCondition d sc s b i) (hc : genStmt d sc s b = some c) : b ≤ i ∧
    i + 1 < b + c.length ∧ ∀ {body b₀ cb}, Part d sc s b body b₀ → genBody d sc body b₀ = some cb →
      i < b₀ ∨ b₀ + cb.length ≤ i := by
  cases s with
  | whileDo cond body =>
    obtain ⟨cc, hcc, hlo, hhi⟩ := h
    simp [hcc, Option.bind_eq_some_iff] at hc
    obtain ⟨cb, _, rfl⟩ := hc
    refine ⟨hlo, ?_, ?_⟩
    · simp
      omega
    · intro body' b₀ cb' hpart _
      cases hpart with
      | whileBody hcc' =>
        rw [hcc] at hcc'
        cases hcc'
        omega
  | repeatUntil body cond =>
    obtain ⟨cb, cc, hcb, hcc, hlo, hhi⟩ := h
    simp [hcb, hcc] at hc
    subst hc
    refine ⟨by omega, ?_, ?_⟩
    · simp
      omega
    · intro body' b₀ cb' hpart hcb'
      cases hpart
      rw [hcb] at hcb'
      cases hcb'
      omega
  | _ => cases h

/-- The body of a branch ends before the branches behind it. -/
theorem branch_end {var : UInt8} {front back : List (List Int64 × List Statement)} {labels : List Int64}
    {cc cf : List (Slot (Option Unit) Instruction)} {cl cb : StmtCode}
    (hcc : genCases d sc var (front ++ (labels, body) :: back) b = some cc)
    (hcf : genCases d sc var front b = some cf) (hcl : genLabels sc var labels = some cl)
    (hcb : genBody d sc body (b + cf.length + cl.length + 1) = some cb) :
    b + cf.length + cl.length + 1 + cb.length < b + cc.length := by
  obtain ⟨cf', cr, hcf', hcr, rfl⟩ := genCases_append hcc
  rw [hcf] at hcf'
  cases hcf'
  simp [hcl, hcb, Option.bind_eq_some_iff] at hcr
  obtain ⟨rest, _, rfl⟩ := hcr
  simp
  omega

/-- Two branches are the same or lie one behind the other. -/
theorem branches_apart {var : UInt8} {front₁ front₂ back₁ back₂ : List (List Int64 × List Statement)}
    {labels₁ labels₂ : List Int64} {body₁ body₂ : List Statement} {cf₁ cf₂ : List (Slot (Option Unit) Instruction)}
    {cl₁ cl₂ cb₁ cb₂ : StmtCode}
    (hlists : front₁ ++ (labels₁, body₁) :: back₁ = front₂ ++ (labels₂, body₂) :: back₂)
    (hcf₁ : genCases d sc var front₁ b = some cf₁) (hcl₁ : genLabels sc var labels₁ = some cl₁)
    (hcb₁ : genBody d sc body₁ (b + cf₁.length + cl₁.length + 1) = some cb₁)
    (hcf₂ : genCases d sc var front₂ b = some cf₂) (hcl₂ : genLabels sc var labels₂ = some cl₂)
    (hcb₂ : genBody d sc body₂ (b + cf₂.length + cl₂.length + 1) = some cb₂) :
    (body₁ = body₂ ∧ cf₁.length + cl₁.length = cf₂.length + cl₂.length) ∨
      b + cf₁.length + cl₁.length + 1 + cb₁.length ≤ b + cf₂.length ∨
      b + cf₂.length + cl₂.length + 1 + cb₂.length ≤ b + cf₁.length := by
  rcases append_eq_append_iff.1 hlists with ⟨mid, rfl, hmid⟩ | ⟨mid, rfl, hmid⟩
  · cases mid with
    | nil =>
      simp at hmid hcf₂
      obtain ⟨⟨rfl, rfl⟩, rfl⟩ := hmid
      rw [hcf₁] at hcf₂
      cases hcf₂
      rw [hcl₁] at hcl₂
      cases hcl₂
      exact .inl ⟨rfl, rfl⟩
    | cons br mid =>
      -- the first branch is one of those in front of the second
      simp at hmid
      obtain ⟨rfl, rfl⟩ := hmid
      exact .inr (.inl (Nat.le_of_lt (branch_end hcf₂ hcf₁ hcl₁ hcb₁)))
  · cases mid with
    | nil =>
      simp at hmid hcf₁
      obtain ⟨⟨rfl, rfl⟩, rfl⟩ := hmid
      rw [hcf₁] at hcf₂
      cases hcf₂
      rw [hcl₁] at hcl₂
      cases hcl₂
      exact .inl ⟨rfl, rfl⟩
    | cons br mid =>
      simp at hmid
      obtain ⟨rfl, rfl⟩ := hmid
      exact .inr (.inr (Nat.le_of_lt (branch_end hcf₁ hcf₂ hcl₂ hcb₂)))

/-- Two bodies of one statement are the same or lie one behind the other. -/
theorem Part.apart {b₁ b₂ : Nat} {body₁ body₂ : List Statement} {c₁ c₂ : StmtCode} (h₁ : Part d sc s b body₁ b₁)
    (h₂ : Part d sc s b body₂ b₂) (hc₁ : genBody d sc body₁ b₁ = some c₁) (hc₂ : genBody d sc body₂ b₂ = some c₂) :
    (body₁ = body₂ ∧ b₁ = b₂) ∨ b₁ + c₁.length ≤ b₂ ∨ b₂ + c₂.length ≤ b₁ := by
  -- the code of a part is determined by the part: equal parts are found at equal places
  cases h₁ with
  | thenBody hcc =>
    cases h₂ with
    | thenBody hcc' =>
      rw [hcc] at hcc'
      cases hcc'
      exact .inl ⟨rfl, rfl⟩
    | elseBody hcc' hct =>
      rw [hcc] at hcc'
      cases hcc'
      rw [hc₁] at hct
      cases hct
      exact .inr (.inl (Nat.le_add_right _ 1))
  | elseBody hcc hct =>
    cases h₂ with
    | thenBody hcc' =>
      rw [hcc] at hcc'
      cases hcc'
      rw [hc₂] at hct
      cases hct
      exact .inr (.inr (Nat.le_add_right _ 1))
    | elseBody hcc' hct' =>
      rw [hcc] at hcc'
      cases hcc'
      rw [hct] at hct'
      cases hct'
      exact .inl ⟨rfl, rfl⟩
  | whileBody hcc =>
    cases h₂ with
    | whileBody hcc' =>
      rw [hcc] at hcc'
      cases hcc'
      exact .inl ⟨rfl, rfl⟩
  | forBody hvar hcs halloc hce =>
    cases h₂ with
    | forBody hvar' hcs' halloc' hce' =>
      rw [hvar] at hvar'
      cases hvar'
      rw [hcs] at hcs'
      cases hcs'
      rw [halloc] at halloc'
      cases halloc'
      rw [hce] at hce'
      cases hce'
      exact .inl ⟨rfl, rfl⟩
  | repeatBody =>
    cases h₂
    exact .inl ⟨rfl, rfl⟩
  | branch hvar hcf hcl =>
    -- the branches of both are lists of the same statement, split at two places
    generalize hs : Statement.case _ _ _ = s at h₂
    cases h₂ with
    | branch hvar' hcf' hcl' =>
      simp only [Statement.case.injEq] at hs
      obtain ⟨rfl, hlists, rfl⟩ := hs
      rw [hvar] at hvar'
      cases hvar'
      rcases branches_apart hlists hcf hcl hc₁ hcf' hcl' hc₂ with ⟨rfl, hsame⟩ | hbefore | hbehind
      · exact .inl ⟨rfl, by omega⟩
      · exact .inr (.inl (by omega))
      · exact .inr (.inr (by omega))
    | caseElse hvar' hcc =>
      cases hs
      rw [hvar] at hvar'
      cases hvar'
      have := branch_end hcc hcf hcl hc₁
      omega
    | _ => cases hs
  | caseElse hvar hcc =>
    generalize hs : Statement.case _ _ _ = s at h₂
    cases h₂ with
    | branch hvar' hcf' hcl' =>
      cases hs
      rw [hvar] at hvar'
      cases hvar'
      have := branch_end hcc hcf' hcl' hc₂
      omega
    | caseElse hvar' hcc' =>
      cases hs
      rw [hvar] at hvar'
      cases hvar'
      rw [hcc] at hcc'
      cases hcc'
      exact .inl ⟨rfl, rfl⟩
    | _ => cases hs

/-- **A condition is no jump back.** The last instruction of a loop does not lie in a condition. -/
theorem InCondition.not_last (h : Within d sc body b outer s b' stop) (hi : InCondition d sc s b' i)
    {b₂ : Nat} (h₂ : Within d sc body b outer s' b₂ stop') {c' : StmtCode} (hc : genBody d sc body b = some c)
    (hloop : s'.isLoop) (hc' : genStmt d sc s' b₂ = some c') : i + 1 ≠ b₂ + c'.length := by
  have hpos := length_loop_pos hc' hloop
  intro hlast
  induction h generalizing c with
  | @here s rest b outer =>
    have hc₀ := hc
    simp only [genBody, bind_some, Option.some.injEq] at hc
    obtain ⟨c₁, hc₁, c₂, hc₂, rfl⟩ := hc
    obtain ⟨hlo, hhi, hparts⟩ := hi.place hc₁
    -- the loop is the statement itself, behind it, or in one of its bodies
    cases h₂ with
    | here =>
      rw [hc₁] at hc'
      cases hc'
      omega
    | after hs hrest =>
      rw [hc₁] at hs
      cases hs
      obtain ⟨c'', hc'', hfirst, _⟩ := hrest.range hc₂
      omega
    | inside hs hpart hrest =>
      obtain ⟨cb, hcb⟩ := hpart.partCode hs
      obtain ⟨c'', hc'', hfirst, hend⟩ := hrest.range hcb.code
      rw [hc'] at hc''
      cases hc''
      have := hparts hpart hcb.code
      omega
  | @after s₀ s rest b b' outer stop c₁ hs h₁ ih =>
    simp [hs, Option.bind_eq_some_iff] at hc
    obtain ⟨c₂, hc₂, rfl⟩ := hc
    obtain ⟨c₃, hc₃, hfirst₁, _⟩ := h₁.range hc₂
    obtain ⟨hlo, _, _⟩ := hi.place hc₃
    cases h₂ with
    | here =>
      rw [hs] at hc'
      cases hc'
      omega
    | after hs' hrest =>
      rw [hs] at hs'
      cases hs'
      exact ih hi hrest hc₂
    | inside hs' hpart hrest =>
      rw [hs] at hs'
      cases hs'
      obtain ⟨cb, hcb⟩ := hpart.partCode hs
      obtain ⟨c'', hc'', _, hend⟩ := hrest.range hcb.code
      rw [hc'] at hc''
      cases hc''
      have := hcb.last
      omega
  | @inside s₀ s rest body b b₀ b' outer stop c₁ hs hpart h₁ ih =>
    simp [hs, Option.bind_eq_some_iff] at hc
    obtain ⟨c₂, hc₂, rfl⟩ := hc
    obtain ⟨cb, hcb⟩ := hpart.partCode hs
    obtain ⟨c₃, hc₃, hfirst₁, hend₁⟩ := h₁.range hcb.code
    obtain ⟨hlo, hhi, _⟩ := hi.place hc₃
    have hlast₁ := hcb.last
    cases h₂ with
    | here =>
      -- the loop ends with its jump back, which is behind the body with the condition
      rw [hs] at hc'
      cases hc'
      rw [hloop, Bool.toNat_true] at hlast₁
      omega
    | after hs' hrest =>
      rw [hs] at hs'
      cases hs'
      obtain ⟨c'', hc'', hfirst, _⟩ := hrest.range hc₂
      omega
    | inside hs' hpart' hrest =>
      rw [hs] at hs'
      cases hs'
      obtain ⟨cb', hcb'⟩ := hpart'.partCode hs
      obtain ⟨c'', hc'', hfirst, hend⟩ := hrest.range hcb'.code
      rw [hc'] at hc''
      cases hc''
      rcases hpart.apart hpart' hcb.code hcb'.code with ⟨rfl, rfl⟩ | happart
      · exact ih hi hrest hcb.code
      · omega

end

/-! ## Programs -/

section
variable {d : Decls} {sc : Scratch} {s s' : Statement} {b b' i : Nat} {body : List Statement} {c : StmtCode}
  {outer stop stop' : Option Nat}

theorem Within.trans {b₀ : Nat} (h : Within d sc body b₀ outer s b stop) (h' : Within d sc [s] b stop s' b' stop') :
    Within d sc body b₀ outer s' b' stop' := by
  induction h with
  | here => exact h'.head
  | after hs _ ih => exact .after hs (ih h')
  | inside hs hpart _ ih => exact .inside hs hpart (ih h')

theorem Within.occurs (h : Within d sc body b outer s b' stop) : Occurs body s := by
  induction h with
  | here => exact .here
  | after _ _ ih => exact .after ih
  | inside _ hpart _ ih => exact .inside hpart.mem_bodies ih

theorem Occurs.trans (h : Occurs body s) (h' : Occurs [s] s') : Occurs body s' := by
  induction h with
  | here => exact h'.head
  | after _ ih => exact .after (ih h')
  | inside hmem _ ih => exact .inside hmem (ih h')

/-- Every body of a statement with code has a place. -/
theorem part_of_mem (hmem : body ∈ s.bodies) (hc : genStmt d sc s b = some c) : ∃ b₀, Part d sc s b body b₀ := by
  cases s with
  | ifThen cond t e =>
    simp only [genStmt, bind_some] at hc
    obtain ⟨cc, hcc, ct, hct, _⟩ := hc
    simp only [Statement.bodies, mem_cons, not_mem_nil, or_false] at hmem
    rcases hmem with rfl | rfl
    · exact ⟨_, .thenBody hcc⟩
    · exact ⟨_, .elseBody hcc hct⟩
  | whileDo cond body' =>
    simp only [genStmt, bind_some] at hc
    obtain ⟨cc, hcc, _⟩ := hc
    obtain rfl : body = body' := by simpa [Statement.bodies] using hmem
    exact ⟨_, .whileBody hcc⟩
  | forDo x start stop step body' =>
    simp only [genStmt, bind_some, Prod.exists] at hc
    obtain ⟨var, hvar, cs, hcs, s, sc₁, hs, ce, hce, _⟩ := hc
    obtain rfl : body = body' := by simpa [Statement.bodies] using hmem
    exact ⟨_, .forBody hvar hcs hs hce⟩
  | repeatUntil body' cond =>
    obtain rfl : body = body' := by simpa [Statement.bodies] using hmem
    exact ⟨_, .repeatBody⟩
  | case x cases elseBody =>
    simp only [genStmt, bind_some] at hc
    obtain ⟨var, hvar, cc, hcc, _⟩ := hc
    simp only [Statement.bodies, mem_append, mem_map, mem_singleton] at hmem
    rcases hmem with ⟨⟨labels, body'⟩, hbr, rfl⟩ | rfl
    · obtain ⟨front, back, rfl⟩ := append_of_mem hbr
      obtain ⟨cf, cr, hcf, hcr, rfl⟩ := genCases_append hcc
      simp only [genCases, bind_some] at hcr
      obtain ⟨cl, hcl, _⟩ := hcr
      exact ⟨_, .branch hvar hcf hcl⟩
    · exact ⟨_, .caseElse hvar hcc⟩
  | _ => simp [Statement.bodies] at hmem

theorem Occurs.within (h : Occurs body s) (hc : genBody d sc body b = some c) (outer : Option Nat) :
    ∃ b' stop, Within d sc body b outer s b' stop := by
  induction h generalizing b c outer with
  | here => exact ⟨b, outer, .here⟩
  | after _ ih =>
    simp only [genBody, bind_some] at hc
    obtain ⟨c₁, hc₁, c₂, hc₂, _⟩ := hc
    obtain ⟨b', stop, hwithin⟩ := ih hc₂ outer
    exact ⟨b', stop, .after hc₁ hwithin⟩
  | inside hmem _ ih =>
    simp only [genBody, bind_some] at hc
    obtain ⟨c₁, hc₁, _⟩ := hc
    obtain ⟨b₀, hpart⟩ := part_of_mem hmem hc₁
    obtain ⟨cb, hcb⟩ := hpart.partCode hc₁
    obtain ⟨b', stop, hwithin⟩ := ih hcb.code _
    exact ⟨b', stop, .inside hc₁ hpart hwithin⟩

/-- The innermost loop ends behind the statement and within the body. -/
theorem Within.stop_bound {n : Nat} (h : Within d sc body b outer s b' stop) (hstop : stop = some n)
    (hc : genBody d sc body b = some c) :
    outer = some n ∨ (∃ c', genStmt d sc s b' = some c' ∧ b' + c'.length ≤ n) ∧ n ≤ b + c.length := by
  induction h generalizing c with
  | here => exact .inl hstop
  | after hs _ ih =>
    simp [hs, Option.bind_eq_some_iff] at hc
    obtain ⟨c₂, hc₂, rfl⟩ := hc
    rw [length_append, ← Nat.add_assoc]
    exact ih hstop hc₂
  | inside hs hpart hrest ih =>
    simp [hs, Option.bind_eq_some_iff] at hc
    obtain ⟨c₂, _, rfl⟩ := hc
    obtain ⟨cb, hcb⟩ := hpart.partCode hs
    obtain ⟨c', hc', _, hend⟩ := hrest.range hcb.code
    have hlast := hcb.last
    rw [length_append]
    rcases ih hstop hcb.code with hcontext | ⟨hbehind, hle⟩
    · split at hcontext
      · obtain rfl := Option.some.inj hcontext
        exact .inr ⟨⟨c', hc', by omega⟩, by omega⟩
      · exact .inl hcontext
    · exact .inr ⟨hbehind, by omega⟩

/-- Outside every loop nothing names a loop's end. -/
theorem Within.outside (h : Within d sc body b outer s b' stop) (hstop : stop = none) :
    outer = none ∧ ∀ n, Within d sc body b (some n) s b' (some n) := by
  induction h with
  | here => exact ⟨hstop, fun n => .here⟩
  | after hs _ ih => exact ⟨(ih hstop).1, fun n => .after hs ((ih hstop).2 n)⟩
  | inside hs hpart _ ih =>
    obtain ⟨hcontext, hall⟩ := ih hstop
    split at hcontext
    · cases hcontext
    · rename_i hloop
      refine ⟨hcontext, fun n => .inside hs hpart ?_⟩
      rw [if_neg hloop]
      exact hall n

end

/-- A body of the program and the index of its code: the main body, or that of a function. -/
def ProgramBody (p : Program) (hp : HalProgram) (body : List Statement) (b : Nat) : Prop :=
  (body = p.body ∧ b = 0) ∨ ∃ (i : Nat) (f : FunctionDef) (e : FunctionEntry), p.functions[i]? = some f ∧
    hp.functionTable[i]? = some e ∧ body = f.body ∧ b = e.entryPoint.toNat

/-- The program contains the statement `s` at `b`, and the innermost loop around it ends at `stop`. -/
def ProgramWithin (p : Program) (hp : HalProgram) (s : Statement) (b : Nat) (stop : Option Nat) : Prop :=
  ∃ body b₀, ProgramBody p hp body b₀ ∧ Within (.ofVariables p.vars) .all body b₀ none s b stop

/-- The program contains the statement. -/
def Program.Contains (p : Program) (s : Statement) : Prop :=
  Occurs p.body s ∨ ∃ f ∈ p.functions, Occurs f.body s

/-- The instruction at `i` is the last of a loop that starts at instruction 0. -/
def BackJump (p : Program) (hp : HalProgram) (i : Nat) : Prop :=
  ∃ s stop c, ProgramWithin p hp s 0 stop ∧ s.isLoop ∧ genStmt (.ofVariables p.vars) .all s 0 = some c ∧
    i + 1 = c.length

/-- Every jump in the code of a statement stays between the statement's first instruction and the first one
    behind it, or is an `EXIT`; an `EXIT` goes to the first instruction behind the innermost loop; and only
    the jump back of a loop goes to 0. -/
structure Bracketed (p : Program) (hp : HalProgram) : Prop where
  within : ∀ {s b stop c i x t}, ProgramWithin p hp s b stop → genStmt (.ofVariables p.vars) .all s b = some c →
    b ≤ i → i < b + c.length → hp.instructions[i]? = some x → JumpsTo x t →
    (b ≤ t.toNat ∧ t.toNat ≤ b + c.length) ∨ ∃ stop', ProgramWithin p hp .exit i stop'
  exits : ∀ {i stop}, ProgramWithin p hp .exit i stop →
    ∃ t, stop = some t.toNat ∧ hp.instructions[i]? = some (.jump t)
  placeholders : ∀ {s b stop c i x}, ProgramWithin p hp s b stop →
    genStmt (.ofVariables p.vars) .all s b = some c → b ≤ i → i < b + c.length → hp.instructions[i]? = some x →
    JumpsTo x 0 → BackJump p hp i

section
variable {p : Program} {hp : HalProgram} {s : Statement} {b i : Nat} {stop : Option Nat} {body : List Statement}

theorem ProgramBody.placed (h : ProgramBody p hp body b) (hok : compileAst p = .ok hp)
    (hlen : hp.instructions.length < 2 ^ 32) : ∃ c, genBody (.ofVariables p.vars) .all body b = some c ∧
      ∀ t, CodeAt hp.instructions b (c.resolve t) := by
  rcases h with ⟨rfl, rfl⟩ | ⟨i, f, e, hf, he, rfl, rfl⟩
  · obtain ⟨c, post, hc, hinst, _, _⟩ := compileAst_eq hok hlen
    exact ⟨c, hc, fun t => ⟨[], .halt :: post, by rw [hinst t]; rfl, rfl⟩⟩
  · obtain ⟨e', c, he', hc, hat, _⟩ := function_placed hok hlen hf
    rw [he] at he'
    cases he'
    exact ⟨c, hc, hat⟩

/-- What starts at 0 is the main body; the functions lie behind it. -/
theorem ProgramBody.behind (h : ProgramBody p hp body b) (hok : compileAst p = .ok hp)
    (hlen : hp.instructions.length < 2 ^ 32) {c : StmtCode}
    (hc : genBody (.ofVariables p.vars) .all p.body 0 = some c) : (body = p.body ∧ b = 0) ∨ c.length < b := by
  rcases h with h | ⟨i, f, e, hf, he, rfl, rfl⟩
  · exact .inl h
  · obtain ⟨e', _, he', _, _, hbehind⟩ := function_placed hok hlen hf
    rw [he] at he'
    cases he'
    exact .inr (hbehind c hc)

theorem Program.Contains.within (h : p.Contains s) (hok : compileAst p = .ok hp)
    (hlen : hp.instructions.length < 2 ^ 32) : ∃ b stop, ProgramWithin p hp s b stop := by
  have hplace : ∀ {body b₀}, ProgramBody p hp body b₀ → Occurs body s →
      ∃ b stop, ProgramWithin p hp s b stop := by
    intro body b₀ hbody hoccurs
    obtain ⟨c, hc, _⟩ := hbody.placed hok hlen
    obtain ⟨b, stop, hwithin⟩ := hoccurs.within hc none
    exact ⟨b, stop, body, b₀, hbody, hwithin⟩
  rcases h with hmain | ⟨f, hf, hoccurs⟩
  · exact hplace (.inl ⟨rfl, rfl⟩) hmain
  · obtain ⟨i, hi⟩ := mem_iff_getElem?.1 hf
    obtain ⟨e, _, he, _⟩ := function_placed hok hlen hi
    exact hplace (.inr ⟨i, f, e, hi, he, rfl, rfl⟩) hoccurs

theorem ProgramWithin.contains (h : ProgramWithin p hp s b stop) : p.Contains s := by
  obtain ⟨body, b₀, ⟨rfl, rfl⟩ | ⟨i, f, e, hf, _, rfl, rfl⟩, hwithin⟩ := h
  · exact .inl hwithin.occurs
  · exact .inr ⟨f, mem_of_getElem? hf, hwithin.occurs⟩

theorem Program.Contains.trans {s' : Statement} (h : p.Contains s) (h' : Occurs [s] s') : p.Contains s' := by
  rcases h with hmain | ⟨f, hf, hoccurs⟩
  · exact .inl (hmain.trans h')
  · exact .inr ⟨f, hf, hoccurs.trans h'⟩

/-- The exits of a compiled program. -/
theorem exits_of_compiled (hok : compileAst p = .ok hp) (hlen : hp.instructions.length < 2 ^ 32)
    (h : ProgramWithin p hp .exit i stop) :
    ∃ n, stop = some n ∧ i < n ∧ (label n).toNat = n ∧ hp.instructions[i]? = some (.jump (label n)) := by
  obtain ⟨body, b₀, hbody, hwithin⟩ := h
  obtain ⟨c, hc, hat⟩ := hbody.placed hok hlen
  have hjump : ∀ {outer stop}, Within (.ofVariables p.vars) .all body b₀ outer .exit i stop →
      hp.instructions[i]? = some (.jump (exitLabel stop)) := by
    intro outer stop hwithin
    obtain ⟨c', hc', hat'⟩ := hwithin.placed hc (hat _)
    cases hc'
    exact hat'.head
  cases stop with
  | none =>
    -- outside every loop the code would depend on where the `EXIT`s go
    obtain ⟨_, hall⟩ := hwithin.outside rfl
    have h₀ := hjump (hall 0)
    rw [hjump (hall 1), Option.some.injEq] at h₀
    exact absurd h₀ (by simp [Instruction.jump, exitLabel, label])
  | some n =>
    rcases hwithin.stop_bound rfl hc with hnone | ⟨⟨c', hc', hbehind⟩, hle⟩
    · cases hnone
    · cases hc'
      have hbound := (hat 0).bound
      rw [length_resolve_stmt] at hbound
      simp only [length_singleton] at hbehind
      exact ⟨n, rfl, by omega, label_toNat (by omega), hjump hwithin⟩

/-- A condition that is not patched leaves a jump to 0 in the code. -/
theorem unpatched_jump {d : Decls} {sc : Scratch} {code : List Instruction} {c : StmtCode} {t : UInt32}
    (hs : ¬ s.patched) (hc : genStmt d sc s b = some c) (hat : CodeAt code b (c.resolve t)) :
    ∃ i x, InCondition d sc s b i ∧ code[i]? = some x ∧ JumpsTo x 0 := by
  have hopen : ∀ {cond : Expr} {b : Nat} {cc : CondCode} {u : UInt32}, cond.leaves .onEnd →
      genCond d cond sc b = some cc →
      CodeAt code b (cc.resolve fun k => if k = .onTrue then some u else none) →
      ∃ i x, b ≤ i ∧ i < b + cc.length ∧ code[i]? = some x ∧ JumpsTo x 0 := by
    intro cond b cc u hleaves hcc hat
    obtain ⟨x, hx, hzero⟩ := genCond_leaves cond hcc hleaves
    obtain ⟨k, hk, hget⟩ := mem_iff_getElem.1 hx
    refine ⟨b + k, x, Nat.le_add_right _ _, by omega, ?_, hzero⟩
    rw [hat.get (by rwa [length_resolve])]
    simp [CondCode.resolve, hget, Slot.resolve]
  cases s with
  | whileDo cond body =>
    simp [Statement.patched] at hs
    simp only [genStmt, bind_some, Option.some.injEq] at hc
    obtain ⟨cc, hcc, cb, hcb, rfl⟩ := hc
    simp only [resolve_append, resolve_plain] at hat
    obtain ⟨i, x, hlo, hhi, hrest⟩ := hopen hs hcc hat.left.left.left
    exact ⟨i, x, ⟨cc, hcc, hlo, hhi⟩, hrest⟩
  | repeatUntil body cond =>
    simp [Statement.patched] at hs
    simp only [genStmt, bind_some, Option.some.injEq] at hc
    obtain ⟨cb, hcb, cc, hcc, rfl⟩ := hc
    simp only [resolve_append, resolve_plain] at hat
    have hcond := hat.left.right
    rw [length_resolve_stmt] at hcond
    obtain ⟨i, x, hlo, hhi, hrest⟩ := hopen hs hcc hcond
    exact ⟨i, x, ⟨cb, cc, hcb, hcc, hlo, hhi⟩, hrest⟩
  | _ => exact absurd rfl hs

/-- **Bracketed programs.** In a compiled program of fewer than 2³² instructions every jump ends up where it
    belongs exactly if the condition of every `WHILE` and `REPEAT` leaves no jumps of the second list. -/
theorem brackets_iff (hok : compileAst p = .ok hp) (hlen : hp.instructions.length < 2 ^ 32) :
    Bracketed p hp ↔ ∀ s, p.Contains s → s.patched := by
  constructor
  · intro h s hs
    by_contra hunpatched
    obtain ⟨b, stop, body, b₀, hbody, hin⟩ := hs.within hok hlen
    obtain ⟨cb, hcb, hat⟩ := hbody.placed hok hlen
    obtain ⟨c, hc, hat'⟩ := hin.placed hcb (hat _)
    obtain ⟨i, x, hcond, hx, ht⟩ := unpatched_jump hunpatched hc hat'
    obtain ⟨hlo, hhi, _⟩ := hcond.place hc
    -- the placeholder would be the jump back of a loop at 0
    obtain ⟨s', stop', c', ⟨body', b₁, hbody', hin'⟩, hloop, hc', hlast⟩ :=
      h.placeholders ⟨body, b₀, hbody, hin⟩ hc hlo (by omega) hx ht
    obtain ⟨c₁, hc₁, _⟩ := hbody'.placed hok hlen
    obtain ⟨c₂, hc₂, hfirst, hend⟩ := hin'.range hc₁
    rw [hc'] at hc₂
    cases hc₂
    obtain ⟨c₀, _, hc₀, _⟩ := compileAst_eq hok hlen
    obtain ⟨rfl, rfl⟩ : body' = p.body ∧ b₁ = 0 := by
      rcases hbody'.behind hok hlen hc₀ with hmain | hbehind
      · exact hmain
      · omega
    rw [hc₀] at hc₁
    cases hc₁
    obtain ⟨_, _, hstart, _⟩ := hin.range hcb
    rcases hbody.behind hok hlen hc₀ with ⟨rfl, rfl⟩ | hbehind
    · exact hcond.not_last hin hin' hc₀ hloop hc' (by omega)
    · omega
  · intro h
    have hslot : ∀ {s b stop c i x}, ProgramWithin p hp s b stop →
        genStmt (.ofVariables p.vars) .all s b = some c → b ≤ i → i < b + c.length →
        hp.instructions[i]? = some x →
        Bounded b (b + c.length) (BackJump p hp) i x ∨ ∃ stop', ProgramWithin p hp .exit i stop' := by
      intro s b stop c i x hwithin hc hlo hhi hx
      have hpatched : ∀ s', Occurs [s] s' → s'.patched := fun s' hs' => h s' (hwithin.contains.trans hs')
      obtain ⟨body, b₀, hbody, hin⟩ := hwithin
      obtain ⟨cb, hcb, hat⟩ := hbody.placed hok hlen
      obtain ⟨c', hc', hat'⟩ := hin.placed hcb (hat _)
      rw [hc] at hc'
      cases hc'
      have hbound := hat'.bound
      rw [length_resolve_stmt] at hbound
      have hwell := stmt_well s hc (by omega) hpatched
      have hresolved : Each (fun i x => Bounded b (b + c.length) (BackJump p hp) i x ∨
          ∃ stop', ProgramWithin p hp .exit i stop') b (c.resolve (exitLabel stop)) := by
        rw [StmtCode.resolve, each_map]
        refine hwell.imp ?_
        intro i slot _ _ hslot
        cases slot with
        | done x =>
          refine .inl fun t ht => ?_
          obtain ⟨hlo, hhi, hback⟩ := hslot t ht
          refine ⟨hlo, hhi, fun hzero => ?_⟩
          obtain ⟨s', c', hloop, hrest⟩ := hback hzero
          obtain ⟨stop', hstop'⟩ := hloop stop
          exact ⟨s', stop', c', ⟨body, b₀, hbody, hin.trans hstop'⟩, hrest⟩
        | hole k x => exact .inr ⟨stop, body, b₀, hbody, hin.trans (hslot.2 stop)⟩
      exact hat'.each hresolved hlo (by rw [length_resolve_stmt]; exact hhi) hx
    constructor
    · intro s b stop c i x t hwithin hc hlo hhi hx ht
      rcases hslot hwithin hc hlo hhi hx with hbounded | hexit
      · exact .inl ⟨(hbounded t ht).1, (hbounded t ht).2.1⟩
      · exact .inr hexit
    · intro i stop hwithin
      obtain ⟨n, rfl, _, hn, hx⟩ := exits_of_compiled hok hlen hwithin
      exact ⟨label n, by rw [hn], hx⟩
    · intro s b stop c i x hwithin hc hlo hhi hx ht
      rcases hslot hwithin hc hlo hhi hx with hbounded | ⟨stop', hexit⟩
      · exact (hbounded 0 ht).2.2 rfl
      · obtain ⟨n, _, hlt, hn, hx'⟩ := exits_of_compiled hok hlen hexit
        rw [hx, Option.some.injEq] at hx'
        have hzero := ht.target (.inl hx')
        rw [← hzero] at hn
        exact absurd hn (by simp; omega)

end

end Audesys.St

/-! ## Two loops -/

namespace Audesys.St

open Audesys.Hal Audesys.Lib

local instance releaseBrackets : Target := host false

/-- `x := 0; WHILE c DO EXIT; END_WHILE`. -/
def waiting (c : Expr) : Program where
  name := "waiting"
  vars := [⟨"x", .dint⟩]
  body := [.assign "x" (.intLiteral 0), .whileDo c [.exit]]
  functions := []

theorem occurs_waiting {c : Expr} {s : Statement} (h : (waiting c).Contains s) :
    s = .assign "x" (.intLiteral 0) ∨ s = .whileDo c [.exit] ∨ s = .exit := by
  have hempty : ∀ {s : Statement}, ¬ Occurs [] s := fun h => by cases h
  rcases h with h | ⟨f, hf, _⟩
  · cases h with
    | here => exact .inl rfl
    | inside hmem _ => simp [Statement.bodies] at hmem
    | after h =>
      cases h with
      | here => exact .inr (.inl rfl)
      | after h => exact absurd h hempty
      | inside hmem h =>
        obtain rfl := mem_singleton.1 hmem
        cases h with
        | here => exact .inr (.inr rfl)
        | after h => exact absurd h hempty
        | inside hmem _ => simp [Statement.bodies] at hmem
  · cases hf

theorem brackets_iff_waiting :
    Bracketed (waiting (positive "x")) (compiled (waiting (positive "x"))) :=
  (brackets_iff rfl (by decide)).2 fun s hs => by
    rcases occurs_waiting hs with rfl | rfl | rfl <;> decide

/-- `WHILE NOT (x > 0)`: the jump that is taken when `x > 0` keeps target 0, outside the loop. -/
theorem brackets_fail :
    compileAst (waiting (.unary .not (positive "x"))) = .ok (compiled (waiting (.unary .not (positive "x")))) ∧
      ¬ Bracketed (waiting (.unary .not (positive "x"))) (compiled (waiting (.unary .not (positive "x")))) := by
  refine ⟨rfl, fun h => ?_⟩
  have hwhile : ProgramWithin (waiting (.unary .not (positive "x"))) (compiled (waiting (.unary .not (positive "x"))))
      (.whileDo (.unary .not (positive "x")) [.exit]) 2 none :=
    ⟨_, 0, .inl ⟨rfl, rfl⟩, .after rfl .here⟩
  rcases h.within (i := 6) hwhile rfl (by decide) (by decide) rfl (.inr rfl) with hbounds | ⟨stop, hexit⟩
  · exact absurd hbounds.1 (by decide)
  · obtain ⟨t, _, hx⟩ := h.exits hexit
    have hplaceholder : (compiled (waiting (.unary .not (positive "x")))).instructions[6]? = some (.jumpIf 0) := rfl
    rw [hplaceholder, Option.some.injEq] at hx
    simp [Instruction.jump, Instruction.jumpIf] at hx

end Audesys.St
