import Audesys.Lib.Run
import Audesys.St.Backpatch

/-!
# `St.Sites` — where the code of a statement stands

`Part s b body b₀` says that `body` is one of the bodies of the statement `s`, whose code starts at index `b`,
and starts at `b₀`; `Within` follows bodies to any depth and keeps track of the innermost loop. `Site body b s b'`
names the nine ways down one by one. In a compiled program every statement of the main body and of the functions has
its code, with its jumps resolved, at its site (`programSite_placed`): what is proved of the code of one
statement then holds at each of its occurrences.
-/

namespace Audesys.St

open Audesys.Hal Audesys.Lib Codegen

variable [Target]
variable {body : List Statement} {s : Statement} {c : StmtCode}

section
variable {code : List Instruction}

@[simp] theorem resolve_plain (l : List Instruction) (t : UInt32) : (plain l).resolve t = l := by
  simp [StmtCode.resolve, Function.comp_def, Slot.resolve]

@[simp] theorem resolve_append (c₁ c₂ : StmtCode) (t : UInt32) :
    StmtCode.resolve (c₁ ++ c₂) t = c₁.resolve t ++ c₂.resolve t := List.map_append

/-- The index of an instruction of the program is exact. -/
theorem label_bound {base n : Nat} {l : List Instruction} (hcode : code.length < 2 ^ 32)
    (hat : CodeAt code base l) (hn : n ≤ base + l.length) : (label n).toNat = n :=
  label_toNat (by have := hat.bound; omega)

end

/-! ## Bodies of a statement -/

def Statement.isLoop : Statement → Bool
  | .whileDo .. | .forDo .. | .repeatUntil .. => true
  | _ => false

/-- `body` is one of the bodies of the statement at `b`, and its code starts at `b₀`. -/
inductive Part (d : Decls) (sc : Scratch) : Statement → Nat → List Statement → Nat → Prop
  | thenBody {cond : Expr} {t e : List Statement} {b : Nat} {cc : CondCode} : genCond d cond sc b = some cc →
      Part d sc (.ifThen cond t e) b t (b + cc.length + 1)
  | elseBody {cond : Expr} {t e : List Statement} {b : Nat} {cc : CondCode} {ct : StmtCode} :
      genCond d cond sc b = some cc → genBody d sc t (b + cc.length + 1) = some ct →
      Part d sc (.ifThen cond t e) b e (b + cc.length + 1 + ct.length + 1)
  | whileBody {cond : Expr} {body : List Statement} {b : Nat} {cc : CondCode} : genCond d cond sc b = some cc →
      Part d sc (.whileDo cond body) b body (b + cc.length + 1)
  | forBody {x : String} {start stop : Expr} {step : Option Expr} {body : List Statement} {b : Nat}
      {var s : UInt8} {sc₁ : Scratch} {cs ce : List Instruction} : d.registers x = some var →
      genExpr d start sc b var = some cs → sc.alloc = some (s, sc₁) →
      genExpr d stop sc₁ (b + cs.length) s = some ce →
      Part d sc (.forDo x start stop step body) b body (b + cs.length + ce.length + 2)
  | repeatBody {cond : Expr} {body : List Statement} {b : Nat} : Part d sc (.repeatUntil body cond) b body b
  | branch {x : String} {front back : List (List Int64 × List Statement)} {labels : List Int64}
      {body e : List Statement} {b : Nat} {var : UInt8} {cf : List (Slot (Option Unit) Instruction)}
      {cl : StmtCode} : d.registers x = some var → genCases d sc var front b = some cf →
      genLabels sc var labels = some cl →
      Part d sc (.case x (front ++ (labels, body) :: back) e) b body (b + cf.length + cl.length + 1)
  | caseElse {x : String} {cases : List (List Int64 × List Statement)} {e : List Statement} {b : Nat}
      {var : UInt8} {cc : List (Slot (Option Unit) Instruction)} : d.registers x = some var →
      genCases d sc var cases b = some cc → Part d sc (.case x cases e) b e (b + cc.length)

section
variable {d : Decls} {sc : Scratch} {code : List Instruction}

theorem genCases_append {var : UInt8} {front back : List (List Int64 × List Statement)} {b : Nat}
    {c : List (Slot (Option Unit) Instruction)} (h : genCases d sc var (front ++ back) b = some c) :
    ∃ cf cb, genCases d sc var front b = some cf ∧ genCases d sc var back (b + cf.length) = some cb ∧
      c = cf ++ cb := by
  induction front generalizing b c with
  | nil => exact ⟨[], c, rfl, h, rfl⟩
  | cons br front ih =>
    obtain ⟨labels, body⟩ := br
    simp only [List.cons_append, genCases, bind_some, Option.some.injEq] at h
    obtain ⟨cl, hcl, cb, hcb, cr, hcr, rfl⟩ := h
    obtain ⟨cf, cb', hcf, hcb', rfl⟩ := ih hcr
    refine ⟨_, cb', by simp [genCases, hcl, hcb, hcf]; rfl, ?_, by simp⟩
    rw [← hcb']
    congr 1
    simp [StmtCode.resolve]
    omega

/-- The code of a body inside a branch: its own `EXIT`s stay open, the jumps to the end are filled. -/
theorem resolve_fillNone_relabel (c : StmtCode) (stop t : UInt32) :
    StmtCode.resolve ((c.map (Slot.relabel some)).map (Slot.fillNone retarget stop)) t = c.resolve t := by
  simp only [StmtCode.resolve, List.map_map]
  refine List.map_congr_left fun s _ => ?_
  cases s <;> rfl

/-- The code `cb` of a body at `b₀` within the code `c` of its statement at `b`. A loop resolves the `EXIT`s in
    its body. -/
structure PartCode (d : Decls) (sc : Scratch) (s : Statement) (b : Nat) (c : StmtCode) (body : List Statement)
    (b₀ : Nat) (cb : StmtCode) : Prop where
  code : genBody d sc body b₀ = some cb
  first : b ≤ b₀
  last : b₀ + cb.length + s.isLoop.toNat ≤ b + c.length
  placed : ∀ {code t}, CodeAt code b (c.resolve t) →
    CodeAt code b₀ (cb.resolve (if s.isLoop then label (b + c.length) else t))

/-- **Each body of a statement has its code in the statement's.** -/
theorem Part.partCode {b b₀ : Nat}
    (h : Part d sc s b body b₀) (hc : genStmt d sc s b = some c) : ∃ cb, PartCode d sc s b c body b₀ cb := by
  -- in each case the body is found behind the lengths of the parts in front of it
  cases h with
  | thenBody hcc =>
    simp only [genStmt, hcc, Option.bind_eq_bind, Option.bind_some, Option.bind_eq_some_iff,
      Option.some.injEq] at hc
    obtain ⟨ct, hct, ce, _, rfl⟩ := hc
    refine ⟨ct, hct, by omega, by simp [Statement.isLoop]; omega, ?_⟩
    intro code t hat
    simp only [resolve_append, resolve_plain] at hat
    have hthen := hat.left.left.right
    simp [← Nat.add_assoc] at hthen
    exact hthen
  | elseBody hcc hct =>
    simp only [genStmt, hcc, hct, Option.bind_eq_bind, Option.bind_some, Option.bind_eq_some_iff,
      Option.some.injEq] at hc
    obtain ⟨ce, hce, rfl⟩ := hc
    refine ⟨ce, hce, by omega, by simp [Statement.isLoop]; omega, ?_⟩
    intro code t hat
    simp only [resolve_append, resolve_plain] at hat
    have helse := hat.right
    simp only [List.length_append, length_resolve, length_resolve_stmt, List.length_singleton,
      ← Nat.add_assoc] at helse
    exact helse
  | @whileBody _ _ _ cc hcc =>
    simp only [genStmt, hcc, Option.bind_eq_bind, Option.bind_some, Option.bind_eq_some_iff,
      Option.some.injEq] at hc
    obtain ⟨cb, hcb, hc⟩ := hc
    -- an exit of the loop goes behind its code
    have hlen : b + c.length = b + cc.length + 1 + cb.length + 1 := by
      rw [← hc]
      simp
      omega
    refine ⟨cb, hcb, by omega, by simp [Statement.isLoop]; omega, ?_⟩
    intro code t hat
    rw [← hc] at hat
    simp only [resolve_append, resolve_plain] at hat
    have hbody := hat.left.right
    simp [← Nat.add_assoc] at hbody
    rw [if_pos (by rfl), hlen]
    exact hbody
  | @forBody _ _ _ _ _ _ _ _ _ cs ce hvar hcs halloc hce =>
    simp only [genStmt, hvar, hcs, halloc, hce, Option.bind_eq_bind, Option.bind_some,
      Option.bind_eq_some_iff, Option.some.injEq] at hc
    obtain ⟨cb, hcb, ct, _, hc⟩ := hc
    have hlen : b + c.length = b + cs.length + ce.length + 2 + cb.length + ct.length + 2 := by
      rw [← hc]
      simp
      omega
    refine ⟨cb, hcb, by omega, by simp [Statement.isLoop]; omega, ?_⟩
    intro code t hat
    rw [← hc] at hat
    simp only [resolve_append, resolve_plain] at hat
    have hbody := hat.left.right
    simp [← Nat.add_assoc] at hbody
    rw [if_pos (by rfl), hlen]
    exact hbody
  | repeatBody =>
    simp only [genStmt, bind_some, Option.some.injEq] at hc
    obtain ⟨cb, hcb, cc, _, hc⟩ := hc
    have hlen : b + c.length = b + cb.length + cc.length + 1 := by
      rw [← hc]
      simp
      omega
    refine ⟨cb, hcb, by omega, by simp [Statement.isLoop]; omega, ?_⟩
    intro code t hat
    rw [← hc] at hat
    simp only [resolve_append, resolve_plain] at hat
    have hbody := hat.left.left
    rw [if_pos (by rfl), hlen]
    exact hbody
  | branch hvar hcf hcl =>
    simp [hvar, Option.bind_eq_some_iff] at hc
    obtain ⟨cc, hcc, ce, _, rfl⟩ := hc
    obtain ⟨cf', cb, hcf', hcb, rfl⟩ := genCases_append hcc
    rw [hcf] at hcf'
    cases hcf'
    simp only [genCases, hcl, Option.bind_eq_bind, Option.bind_some, Option.bind_eq_some_iff,
      Option.some.injEq] at hcb
    obtain ⟨cbody, hcbody, cr, _, rfl⟩ := hcb
    refine ⟨cbody, hcbody, by omega, by simp [Statement.isLoop]; omega, ?_⟩
    intro code t hat
    simp only [List.map_append, resolve_append, resolve_fillNone_relabel] at hat
    have hbody := hat.left.right.left.left.right
    simp [← Nat.add_assoc] at hbody
    exact hbody
  | caseElse hvar hcc =>
    simp [hvar, hcc, Option.bind_eq_some_iff] at hc
    obtain ⟨ce, hce, rfl⟩ := hc
    refine ⟨ce, hce, by omega, by simp [Statement.isLoop]; omega, ?_⟩
    intro code t hat
    simp only [resolve_append] at hat
    have helse := hat.right
    rw [length_resolve_stmt, List.length_map] at helse
    exact helse

end

/-! ## Statements of a body -/

/-- The body at `b` contains the statement `s` at `b'`, at any depth. Of the loops around a statement the
    innermost ends at `stop`, if there is one: `outer` is that of the body, and `stop` that of the statement. -/
inductive Within (d : Decls) (sc : Scratch) : List Statement → Nat → Option Nat → Statement → Nat → Option Nat → Prop
  | here {s : Statement} {rest : List Statement} {b : Nat} {outer : Option Nat} :
      Within d sc (s :: rest) b outer s b outer
  | after {s s' : Statement} {rest : List Statement} {b b' : Nat} {outer stop : Option Nat} {c : StmtCode} :
      genStmt d sc s b = some c → Within d sc rest (b + c.length) outer s' b' stop →
      Within d sc (s :: rest) b outer s' b' stop
  | inside {s s' : Statement} {rest body : List Statement} {b b₀ b' : Nat} {outer stop : Option Nat}
      {c : StmtCode} : genStmt d sc s b = some c → Part d sc s b body b₀ →
      Within d sc body b₀ (if s.isLoop then some (b + c.length) else outer) s' b' stop →
      Within d sc (s :: rest) b outer s' b' stop

/-- Where an `EXIT` goes. -/
def exitLabel (stop : Option Nat) : UInt32 := label (stop.getD 0)

section
variable {d : Decls} {sc : Scratch} {code : List Instruction}

/-- **A statement of a body has its code there**, with its open `EXIT`s behind the innermost loop. -/
theorem Within.placed {b b' : Nat} {outer stop : Option Nat}
    (h : Within d sc body b outer s b' stop) (hc : genBody d sc body b = some c)
    (hat : CodeAt code b (c.resolve (exitLabel outer))) :
    ∃ c', genStmt d sc s b' = some c' ∧ CodeAt code b' (c'.resolve (exitLabel stop)) := by
  induction h generalizing c with
  | here =>
    simp only [genBody, bind_some, Option.some.injEq] at hc
    obtain ⟨c₁, hc₁, c₂, _, rfl⟩ := hc
    rw [resolve_append] at hat
    exact ⟨c₁, hc₁, hat.left⟩
  | after hs _ ih =>
    simp [hs, Option.bind_eq_some_iff] at hc
    obtain ⟨c₂, hc₂, rfl⟩ := hc
    rw [resolve_append] at hat
    have hrest := hat.right
    rw [length_resolve_stmt] at hrest
    exact ih hc₂ hrest
  | inside hs hpart _ ih =>
    simp [hs, Option.bind_eq_some_iff] at hc
    obtain ⟨c₂, _, rfl⟩ := hc
    rw [resolve_append] at hat
    obtain ⟨cb, hcb⟩ := hpart.partCode hs
    have hbody := hcb.placed hat.left
    refine ih hcb.code ?_
    split <;> rename_i hloop
    · rwa [if_pos hloop] at hbody
    · rwa [if_neg hloop] at hbody

end

/-! ## Sites -/

/-- The body at `b` contains the statement `s` at `b'`. -/
inductive Site (d : Decls) (sc : Scratch) : List Statement → Nat → Statement → Nat → Prop
  | here {s : Statement} {rest : List Statement} {b : Nat} : Site d sc (s :: rest) b s b
  | after {s s' : Statement} {rest : List Statement} {b b' : Nat} {c : StmtCode} : genStmt d sc s b = some c →
      Site d sc rest (b + c.length) s' b' → Site d sc (s :: rest) b s' b'
  | thenBody {cond : Expr} {t e rest : List Statement} {s' : Statement} {b b' : Nat} {cc : CondCode} :
      genCond d cond sc b = some cc → Site d sc t (b + cc.length + 1) s' b' →
      Site d sc (.ifThen cond t e :: rest) b s' b'
  | elseBody {cond : Expr} {t e rest : List Statement} {s' : Statement} {b b' : Nat} {cc : CondCode}
      {ct : StmtCode} : genCond d cond sc b = some cc → genBody d sc t (b + cc.length + 1) = some ct →
      Site d sc e (b + cc.length + 1 + ct.length + 1) s' b' → Site d sc (.ifThen cond t e :: rest) b s' b'
  | whileBody {cond : Expr} {body rest : List Statement} {s' : Statement} {b b' : Nat} {cc : CondCode} :
      genCond d cond sc b = some cc → Site d sc body (b + cc.length + 1) s' b' →
      Site d sc (.whileDo cond body :: rest) b s' b'
  | forBody {x : String} {start stop : Expr} {step : Option Expr} {body rest : List Statement} {s' : Statement}
      {b b' : Nat} {var s : UInt8} {sc₁ : Scratch} {cs ce : List Instruction} : d.registers x = some var →
      genExpr d start sc b var = some cs → sc.alloc = some (s, sc₁) →
      genExpr d stop sc₁ (b + cs.length) s = some ce → Site d sc body (b + cs.length + ce.length + 2) s' b' →
      Site d sc (.forDo x start stop step body :: rest) b s' b'
  | repeatBody {cond : Expr} {body rest : List Statement} {s' : Statement} {b b' : Nat} :
      Site d sc body b s' b' → Site d sc (.repeatUntil body cond :: rest) b s' b'
  | branch {x : String} {front back : List (List Int64 × List Statement)} {labels : List Int64}
      {body e rest : List Statement} {s' : Statement} {b b' : Nat} {var : UInt8}
      {cf : List (Slot (Option Unit) Instruction)} {cl : StmtCode} : d.registers x = some var →
      genCases d sc var front b = some cf → genLabels sc var labels = some cl →
      Site d sc body (b + cf.length + cl.length + 1) s' b' →
      Site d sc (.case x (front ++ (labels, body) :: back) e :: rest) b s' b'
  | caseElse {x : String} {cases : List (List Int64 × List Statement)} {e rest : List Statement}
      {s' : Statement} {b b' : Nat} {var : UInt8} {cc : List (Slot (Option Unit) Instruction)} :
      d.registers x = some var → genCases d sc var cases b = some cc → Site d sc e (b + cc.length) s' b' →
      Site d sc (.case x cases e :: rest) b s' b'

section
variable {d : Decls} {sc : Scratch} {code : List Instruction}

theorem Site.within {b b' : Nat} (h : Site d sc body b s b')
    (hc : genBody d sc body b = some c) (outer : Option Nat) : ∃ stop, Within d sc body b outer s b' stop := by
  have hinside : ∀ {s s' : Statement} {rest body : List Statement} {b b₀ b' : Nat} {c : StmtCode}
      {outer : Option Nat}, genBody d sc (s :: rest) b = some c → Part d sc s b body b₀ →
      (∀ {c : StmtCode}, genBody d sc body b₀ = some c → ∀ outer, ∃ stop, Within d sc body b₀ outer s' b' stop) →
      ∃ stop, Within d sc (s :: rest) b outer s' b' stop := by
    intro s s' rest body b b₀ b' c outer hc hpart ih
    simp only [genBody, bind_some] at hc
    obtain ⟨c₁, hc₁, _⟩ := hc
    obtain ⟨cb, hcb⟩ := hpart.partCode hc₁
    obtain ⟨stop, hstop⟩ := ih hcb.code (if s.isLoop then some (b + c₁.length) else outer)
    exact ⟨stop, .inside hc₁ hpart hstop⟩
  induction h generalizing c outer with
  | here => exact ⟨outer, .here⟩
  | after hs _ ih =>
    simp [hs, Option.bind_eq_some_iff] at hc
    obtain ⟨c₂, hc₂, _⟩ := hc
    obtain ⟨stop, hstop⟩ := ih hc₂ outer
    exact ⟨stop, .after hs hstop⟩
  | thenBody hcc _ ih => exact hinside hc (.thenBody hcc) ih
  | elseBody hcc hct _ ih => exact hinside hc (.elseBody hcc hct) ih
  | whileBody hcc _ ih => exact hinside hc (.whileBody hcc) ih
  | forBody hvar hcs halloc hce _ ih => exact hinside hc (.forBody hvar hcs halloc hce) ih
  | repeatBody _ ih => exact hinside hc .repeatBody ih
  | branch hvar hcf hcl _ ih => exact hinside hc (.branch hvar hcf hcl) ih
  | caseElse hvar hcc _ ih => exact hinside hc (.caseElse hvar hcc) ih

/-- **A site has its statement's code.** -/
theorem site_placed {b b' : Nat} (h : Site d sc body b s b')
    {t : UInt32} (hc : genBody d sc body b = some c) (hat : CodeAt code b (c.resolve t)) :
    ∃ c' t', genStmt d sc s b' = some c' ∧ CodeAt code b' (c'.resolve t') := by
  obtain ⟨stop, hwithin⟩ := h.within hc (some t.toNat)
  have hlabel : exitLabel (some t.toNat) = t := UInt32.ofNat_toNat
  obtain ⟨c', hc', hat'⟩ := hwithin.placed hc (hlabel ▸ hat)
  exact ⟨c', _, hc', hat'⟩

end

/-! ## Programs -/

/-- A body compiled outside every loop leaves no `EXIT` open. -/
theorem holes_of_outside {base : Nat} {ls : List (List UInt32)}
    (h : recordExits [] (jumpsAt base () c) = some ls) : holes () c = [] ∧ ls = [] := by
  cases hj : jumpsAt base () c with
  | nil =>
    rw [hj] at h
    refine ⟨by simpa [jumpsAt] using hj, ?_⟩
    cases h
    rfl
  | cons j js =>
    rw [hj] at h
    cases h

/-- Each function's body is compiled at its entry point, behind what was there before. -/
theorem compileFunctions_at (fs : List FunctionDef) {table table' : List FunctionEntry} {cg cg' : Codegen}
    (h : compileFunctions fs table cg = .ok (table', cg')) (hb : cg'.instructions.length < 2 ^ 32)
    (hexits : cg.loopExits = []) : ∃ added : List FunctionEntry, table' = table ++ added ∧
      ∀ (i : Nat) (f : FunctionDef), fs[i]? = some f → ∃ (e : FunctionEntry) (c : StmtCode), added[i]? = some e ∧
        genBody cg.decls cg.scratch f.body e.entryPoint.toNat = some c ∧
        (∀ t, CodeAt cg'.instructions e.entryPoint.toNat (c.resolve t)) ∧
        cg.instructions.length ≤ e.entryPoint.toNat := by
  induction fs generalizing table cg with
  | nil => cases h; exact ⟨[], by simp, by simp⟩
  | cons f fs ih =>
    simp only [compileFunctions, bind_ok] at h
    obtain ⟨cg₁, h₁, h₂⟩ := h
    obtain ⟨code, hcode, _⟩ := compileFunctions_ok fs h₂ hb
    have hb₁ : cg₁.instructions.length < 2 ^ 32 := by
      rw [hcode, emit_eq, append_instructions] at hb
      simp only [List.length_append] at hb
      omega
    obtain ⟨c, ls, hc, rfl, hls⟩ := compileBody_eq f.body _ _ h₁ hb₁
    rw [hexits] at hls
    obtain ⟨hholes, rfl⟩ := holes_of_outside hls
    obtain ⟨added, rfl, hadded⟩ := ih h₂ rfl
    simp at hcode
    have hentry : (label cg.instructions.length).toNat = cg.instructions.length := by
      refine label_toNat ?_
      simp at hb₁
      omega
    refine ⟨⟨f.name, cg.currentIdx, 0⟩ :: added, by simp, ?_⟩
    intro i f' hi
    cases i with
    | zero =>
      simp at hi
      subst hi
      refine ⟨_, c, rfl, by simpa [hentry] using hc, fun t =>
        ⟨cg.instructions, [Instruction.ret none] ++ code, ?_, hentry.symm⟩, hentry.ge⟩
      have hraw := raw_of_holes_nil retarget () (f := fun _ => some t) (by simp) hholes
      rw [hcode, StmtCode.resolve, ← hraw]
      simp
    | succ i =>
      simp only [List.getElem?_cons_succ] at hi ⊢
      obtain ⟨e, c', he, hc', hat, hbehind⟩ := hadded i f' hi
      refine ⟨e, c', he, hc', hat, ?_⟩
      simp at hbehind
      omega

/-- The program contains the statement `s`, and its code starts at `b`. -/
def ProgramSite (p : Program) (hp : HalProgram) (s : Statement) (b : Nat) : Prop :=
  Site (.ofVariables p.vars) .all p.body 0 s b ∨
    ∃ (i : Nat) (f : FunctionDef) (e : FunctionEntry), p.functions[i]? = some f ∧ hp.functionTable[i]? = some e ∧
      Site (.ofVariables p.vars) .all f.body e.entryPoint.toNat s b

/-- **The functions of a compiled program** have their code at their entry points, behind the main body. -/
theorem function_placed {p : Program} {hp : HalProgram} (hok : compileAst p = .ok hp)
    (hlen : hp.instructions.length < 2 ^ 32) {i : Nat} {f : FunctionDef} (hf : p.functions[i]? = some f) :
    ∃ (e : FunctionEntry) (c : StmtCode), hp.functionTable[i]? = some e ∧
      genBody (.ofVariables p.vars) .all f.body e.entryPoint.toNat = some c ∧
      (∀ t, CodeAt hp.instructions e.entryPoint.toNat (c.resolve t)) ∧
      ∀ c₀, genBody (.ofVariables p.vars) .all p.body 0 = some c₀ → c₀.length < e.entryPoint.toNat := by
  simp only [compileAst, bind_ok, Prod.exists, Except.ok.injEq] at hok
  obtain ⟨cg₀, h₀, cg₁, h₁, table, cg₂, h₂, rfl⟩ := hok
  obtain ⟨post, hpost, _⟩ := compileFunctions_ok p.functions h₂ hlen
  have hb₁ : cg₁.instructions.length < 2 ^ 32 := by
    have : cg₂.instructions.length < 2 ^ 32 := hlen
    rw [hpost, emit_eq, append_instructions] at this
    simp only [List.length_append] at this
    omega
  obtain ⟨c, ls, hc, rfl, hls⟩ := compileBody_eq p.body _ _ h₁ hb₁
  unfold Codegen.new at h₀
  split at h₀
  · exact absurd h₀ (by simp)
  · cases h₀
    obtain ⟨_, rfl⟩ := holes_of_outside hls
    obtain ⟨added, htable, hadded⟩ := compileFunctions_at p.functions h₂ hlen rfl
    rw [List.nil_append] at htable
    obtain ⟨e, cf, he, hcf, hat, hbehind⟩ := hadded i f hf
    refine ⟨e, cf, htable ▸ he, hcf, hat, ?_⟩
    intro c₀ hc₀
    obtain rfl : c = c₀ := Option.some.inj (hc.symm.trans hc₀)
    simpa [emit_eq, Nat.succ_le_iff] using hbehind

/-- **Every statement of a compiled program has its code at its site.** -/
theorem programSite_placed {p : Program} {hp : HalProgram} {b : Nat}
    (hok : compileAst p = .ok hp) (hlen : hp.instructions.length < 2 ^ 32) (h : ProgramSite p hp s b) :
    ∃ c t, genStmt (.ofVariables p.vars) .all s b = some c ∧ CodeAt hp.instructions b (c.resolve t) := by
  rcases h with h | ⟨i, f, e, hf, he, h⟩
  · obtain ⟨c, post, hc, hinst, _, _⟩ := compileAst_eq hok hlen
    exact site_placed h hc (t := 0) ⟨[], .halt :: post, by rw [hinst 0]; rfl, rfl⟩
  · obtain ⟨e', c, he', hc, hat, _⟩ := function_placed hok hlen hf
    rw [he] at he'
    cases he'
    exact site_placed h hc (hat 0)

end Audesys.St
