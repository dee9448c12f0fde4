import Audesys.St.Jumps

/-!
# `St.Bounds` — the jumps of a statement

The jumps that a statement adds stay between its first instruction and the first one behind it, apart from
`EXIT`, which stays open for the loop around the statement (`Well`). Every kind of statement has its lemma,
for the lemmas of its bodies; `stmt_well` puts them together.
-/

open List

namespace Audesys.St

open Audesys.Hal Audesys.Lib Codegen

variable [Target]
variable {body : List Statement}

/-! ## Statements -/

/-- The bodies of a statement. -/
def Statement.bodies : Statement → List (List Statement)
  | .ifThen _ thenBody elseBody => [thenBody, elseBody]
  | .whileDo _ body | .forDo _ _ _ _ body | .repeatUntil body _ => [body]
  | .case _ cases elseBody => cases.map Prod.snd ++ [elseBody]
  | _ => []

/-- The statement `s'` stands in the body, at any depth. -/
inductive Occurs : List Statement → Statement → Prop
  | here {s : Statement} {rest : List Statement} : Occurs (s :: rest) s
  | after {s s' : Statement} {rest : List Statement} : Occurs rest s' → Occurs (s :: rest) s'
  | inside {s s' : Statement} {rest body : List Statement} : body ∈ s.bodies → Occurs body s' →
      Occurs (s :: rest) s'

/-- The statement patches all jumps of its condition. -/
def Statement.patched : Statement → Bool
  | .whileDo condition _ | .repeatUntil _ condition => !condition.leaves .onEnd
  | _ => true

/-- There is an `EXIT` at `i`, for a loop around the body. -/
def ExitIn (d : Decls) (sc : Scratch) (body : List Statement) (b i : Nat) : Prop :=
  ∀ outer, Within d sc body b outer .exit i outer

/-- The instruction at `i` is the last of a loop that starts at 0. -/
def BackIn (d : Decls) (sc : Scratch) (body : List Statement) (b i : Nat) : Prop :=
  ∃ s c, (∀ outer, ∃ stop, Within d sc body b outer s 0 stop) ∧ s.isLoop ∧ genStmt d sc s 0 = some c ∧
    i + 1 = c.length

/-- A jump at `i` goes to `lo`, to `hi` or between them. -/
def Bounded (lo hi : Nat) (back : Nat → Prop) (i : Nat) (x : Instruction) : Prop :=
  ∀ t, JumpsTo x t → lo ≤ t.toNat ∧ t.toNat ≤ hi ∧ (t = 0 → back i)

/-- The jumps are bounded; an open one is an `EXIT`. -/
def Well (lo hi : Nat) (back exits : Nat → Prop) (i : Nat) : Slot Unit Instruction → Prop
  | .done x => Bounded lo hi back i x
  | .hole _ x => x = .jump 0 ∧ exits i

def StmtWell (d : Decls) (sc : Scratch) (s : Statement) : Prop :=
  ∀ {b c}, genStmt d sc s b = some c → b + c.length < 2 ^ 32 → (∀ s', Occurs [s] s' → s'.patched) →
    Each (Well b (b + c.length) (BackIn d sc [s] b) (ExitIn d sc [s] b)) b c

def BodyWell (d : Decls) (sc : Scratch) (body : List Statement) : Prop :=
  ∀ {b c}, genBody d sc body b = some c → b + c.length < 2 ^ 32 → (∀ s, Occurs body s → s.patched) →
    Each (Well b (b + c.length) (BackIn d sc body b) (ExitIn d sc body b)) b c

section
variable {d : Decls} {sc : Scratch} {s : Statement} {b b₀ i : Nat} {rest : List Statement} {c cb : StmtCode}

theorem Part.mem_bodies (h : Part d sc s b body b₀) : body ∈ s.bodies := by
  cases h <;> simp [Statement.bodies]

theorem ExitIn.inside (h : ExitIn d sc body b₀ i) (hc : genStmt d sc s b = some c) (hpart : Part d sc s b body b₀)
    (hloop : ¬ s.isLoop) : ExitIn d sc (s :: rest) b i := by
  intro outer
  refine .inside hc hpart ?_
  rw [if_neg hloop]
  exact h outer

theorem BackIn.inside (h : BackIn d sc body b₀ i) (hc : genStmt d sc s b = some c) (hpart : Part d sc s b body b₀) :
    BackIn d sc (s :: rest) b i := by
  obtain ⟨s', c', hwithin, hrest⟩ := h
  refine ⟨s', c', fun outer => ?_, hrest⟩
  obtain ⟨stop, hstop⟩ := hwithin (if s.isLoop then some (b + c.length) else outer)
  exact ⟨stop, .inside hc hpart hstop⟩

/-- The first statement of a body. -/
theorem Within.head {outer stop : Option Nat} {s' : Statement} {b' : Nat} (h : Within d sc [s] b outer s' b' stop) :
    Within d sc (s :: rest) b outer s' b' stop := by
  cases h with
  | here => exact .here
  | after _ h => cases h
  | inside hc hpart h => exact .inside hc hpart h

theorem Occurs.head {s' : Statement} (h : Occurs [s] s') : Occurs (s :: rest) s' := by
  cases h with
  | here => exact .here
  | after h => cases h
  | inside hmem h => exact .inside hmem h

theorem ExitIn.head (h : ExitIn d sc [s] b i) : ExitIn d sc (s :: rest) b i := fun outer => (h outer).head

theorem ExitIn.after (h : ExitIn d sc rest (b + c.length) i) (hc : genStmt d sc s b = some c) :
    ExitIn d sc (s :: rest) b i := fun outer => .after hc (h outer)

theorem BackIn.head (h : BackIn d sc [s] b i) : BackIn d sc (s :: rest) b i := by
  obtain ⟨s', c', hwithin, hrest⟩ := h
  refine ⟨s', c', fun outer => ?_, hrest⟩
  obtain ⟨stop, hstop⟩ := hwithin outer
  exact ⟨stop, hstop.head⟩

theorem BackIn.after (h : BackIn d sc rest (b + c.length) i) (hc : genStmt d sc s b = some c) :
    BackIn d sc (s :: rest) b i := by
  obtain ⟨s', c', hwithin, hrest⟩ := h
  refine ⟨s', c', fun outer => ?_, hrest⟩
  obtain ⟨stop, hstop⟩ := hwithin outer
  exact ⟨stop, .after hc hstop⟩

theorem Ahead.bounded {lo hi hi' : Nat} {back : Nat → Prop} {x : Instruction} (h : Ahead hi i x) (hlo : lo ≤ i)
    (hle : hi ≤ hi') : Bounded lo hi' back i x := by
  intro t ht
  obtain ⟨hlt, hto⟩ := h t ht
  refine ⟨by omega, by omega, ?_⟩
  rintro rfl
  exact absurd hlt (Nat.not_lt_zero _)

/-- Code whose jumps go ahead. -/
theorem each_well {lo hi hi' base : Nat} {back exits : Nat → Prop} {l : List Instruction}
    (h : Each (Ahead hi) base l) (hlo : lo ≤ base) (hle : hi ≤ hi') :
    Each (Well lo hi' back exits) base (plain l) := by
  rw [plain, each_map]
  exact h.imp fun i x hi _ hx => hx.bounded (hlo.trans hi) hle

theorem Straight.bounded {lo hi : Nat} {back : Nat → Prop} {x : Instruction} (h : Straight x) :
    Bounded lo hi back i x := fun t ht => absurd ht (h t)

/-- One jump ahead. -/
theorem bounded_jump {lo hi n : Nat} {back : Nat → Prop} {x : Instruction}
    (hx : x = .jump (label n) ∨ x = .jumpIf (label n)) (hlo : lo ≤ i) (hn : i < n) (hhi : n ≤ hi)
    (hbound : n < 2 ^ 32) : Bounded lo hi back i x := by
  have hahead : Ahead hi i x := by
    intro t ht
    rw [ht.target hx, label_toNat hbound]
    exact ⟨hn, hhi⟩
  exact hahead.bounded hlo (Nat.le_refl hi)

/-- The jump back of a loop. -/
theorem bounded_back {n hi : Nat} (hc : genStmt d sc s b = some c) (hloop : s.isLoop)
    (hlast : i + 1 = b + c.length) (hn : b ≤ n) (hhi : n ≤ hi) (hbound : n < 2 ^ 32) :
    Bounded b hi (BackIn d sc [s] b) i (.jump (label n)) := by
  intro t ht
  rw [ht.target (.inl rfl), label_toNat hbound]
  refine ⟨hn, hhi, fun hzero => ?_⟩
  have hn0 : n = 0 := by
    have := congrArg UInt32.toNat hzero
    rwa [label_toNat hbound] at this
  obtain rfl : b = 0 := by omega
  exact ⟨s, c, fun outer => ⟨outer, .here⟩, hloop, hc, by omega⟩

/-- The code of a body within its statement, when that is not a loop. -/
theorem BodyWell.part (h : BodyWell d sc body) (hpart : Part d sc s b body b₀) (hc : genStmt d sc s b = some c)
    (hcb : genBody d sc body b₀ = some cb) (hloop : ¬ s.isLoop) (hb : b + c.length < 2 ^ 32)
    (hpatched : ∀ s', Occurs [s] s' → s'.patched) :
    Each (Well b (b + c.length) (BackIn d sc [s] b) (ExitIn d sc [s] b)) b₀ cb := by
  obtain ⟨cb', hcb', hfirst, hlast, _⟩ := hpart.partCode hc
  rw [hcb] at hcb'
  cases hcb'
  have hbody := h hcb (by omega) fun s' hs' => hpatched s' (.inside hpart.mem_bodies hs')
  refine hbody.imp ?_
  intro i slot _ _ hslot
  cases slot with
  | done x =>
    intro t ht
    obtain ⟨hlo, hhi, hback⟩ := hslot t ht
    exact ⟨by omega, by omega, fun hzero => (hback hzero).inside hc hpart⟩
  | hole k x => exact ⟨hslot.1, hslot.2.inside hc hpart hloop⟩

/-- The code of a loop's body: its `EXIT`s go behind the loop. -/
theorem BodyWell.loop (h : BodyWell d sc body) (hpart : Part d sc s b body b₀) (hc : genStmt d sc s b = some c)
    (hcb : genBody d sc body b₀ = some cb) (hb : b + c.length < 2 ^ 32)
    (hpatched : ∀ s', Occurs [s] s' → s'.patched) :
    Each (Well b (b + c.length) (BackIn d sc [s] b) (ExitIn d sc [s] b)) b₀
      (plain (cb.resolve (label (b + c.length)))) := by
  obtain ⟨cb', hcb', hfirst, hlast, _⟩ := hpart.partCode hc
  rw [hcb] at hcb'
  cases hcb'
  have hbody := h hcb (by omega) fun s' hs' => hpatched s' (.inside hpart.mem_bodies hs')
  rw [plain, each_map, StmtCode.resolve, each_map]
  refine hbody.imp ?_
  intro i slot hi hilt hslot
  cases slot with
  | done x =>
    intro t ht
    obtain ⟨hlo, hhi, hback⟩ := hslot t ht
    exact ⟨by omega, by omega, fun hzero => (hback hzero).inside hc hpart⟩
  | hole k x =>
    rw [hslot.1]
    exact bounded_jump (.inl rfl) (by omega) (by omega) (Nat.le_refl _) hb

/-- Code without open jumps. -/
theorem plain_well {l : List Instruction} (h : Each (Ahead (b + l.length)) b l) :
    Each (Well b (b + (plain l).length) (BackIn d sc [s] b) (ExitIn d sc [s] b)) b (plain l) := by
  rw [plain, length_map]
  exact each_well h (Nat.le_refl b) (Nat.le_refl _)

theorem assign_well (name : String) (value : Expr) : StmtWell d sc (.assign name value) := by
  intro b c hc hb _
  simp only [genStmt, bind_some, Option.some.injEq] at hc
  obtain ⟨dest, _, cv, hcv, rfl⟩ := hc
  simp at hb
  apply plain_well
  simp [each_append, each_cons, each_nil, Straight.ahead, straight_storeInst]
  exact each_ahead_mono (genExpr_ahead value hcv (by omega)) (by omega)

theorem arrayAssign_well (name : String) (index value : Expr) : StmtWell d sc (.arrayAssign name index value) := by
  intro b c hc hb _
  simp only [genStmt, bind_some, Option.some.injEq, Prod.exists] at hc
  obtain ⟨array, _, idx, sc₁, _, ci, hci, val, sc₂, _, cv, hcv, rfl⟩ := hc
  simp at hb
  apply plain_well
  simp [each_append, each_cons, each_nil, Straight.ahead, straight_storeInst, straight_storeIndex]
  exact ⟨each_ahead_mono (genExpr_ahead index hci (by omega)) (by omega),
    each_ahead_mono (genExpr_ahead value hcv (by omega)) (by omega)⟩

theorem if_well (cond : Expr) {thenBody elseBody : List Statement} (ht : BodyWell d sc thenBody)
    (he : BodyWell d sc elseBody) : StmtWell d sc (.ifThen cond thenBody elseBody) := by
  intro b c hc hb hpatched
  have hstmt := hc
  simp only [genStmt, bind_some, Option.some.injEq] at hc
  obtain ⟨cc, hcc, ct, hct, ce, hce, hc⟩ := hc
  have hlen : b + c.length = b + cc.length + 1 + ct.length + 1 + ce.length := by
    rw [← hc]
    simp
    omega
  have hthen := ht.part (.thenBody hcc) hstmt hct (by simp [Statement.isLoop]) hb hpatched
  have helse := he.part (.elseBody hcc hct) hstmt hce (by simp [Statement.isLoop]) hb hpatched
  rw [hlen] at hthen helse ⊢
  rw [← hc]
  simp only [each_append, length_append, length_map, length_resolve, length_singleton, ← Nat.add_assoc]
  refine ⟨⟨⟨⟨?_, ?_⟩, hthen⟩, ?_⟩, helse⟩
  · -- both lists of the condition go to the first body
    refine each_well (genCond_ahead cond hcc (by omega) ?_ (Nat.le_add_right _ 1)) (Nat.le_refl b) (by omega)
    intro k _
    refine ⟨_, rfl, ?_⟩
    rw [label_toNat (by omega)]
    omega
  · simp [plain, each_cons, each_nil]
    exact bounded_jump (.inl rfl) (by omega) (by omega) (by omega) (by omega)
  · simp [plain, each_cons, each_nil]
    exact bounded_jump (.inl rfl) (by omega) (by omega) (by omega) (by omega)

/-- The targets of the condition of a `WHILE` or `REPEAT` that leaves no jumps of the second list. -/
theorem targets_of_patched {cond : Expr} {n stop hi : Nat} (h : ¬ cond.leaves .onEnd) (hn : n < 2 ^ 32)
    (hstop : stop ≤ n) (hhi : n ≤ hi) :
    Targets cond (fun k => if k = .onTrue then some (label n) else none) stop hi := by
  intro k hk
  cases k with
  | onTrue => exact ⟨label n, if_pos rfl, by rw [label_toNat hn]; exact ⟨hstop, hhi⟩⟩
  | onEnd => exact absurd hk h

theorem while_well (cond : Expr) (hbody : BodyWell d sc body) : StmtWell d sc (.whileDo cond body) := by
  intro b c hc hb hpatched
  have hstmt := hc
  simp only [genStmt, bind_some, Option.some.injEq] at hc
  obtain ⟨cc, hcc, cb, hcb, hc⟩ := hc
  have hlen : b + c.length = b + cc.length + 1 + cb.length + 1 := by
    rw [← hc]
    simp
    omega
  have hleaves : ¬ cond.leaves .onEnd := by simpa [Statement.patched] using hpatched _ .here
  have hloop := hbody.loop (.whileBody hcc) hstmt hcb hb hpatched
  have hback : ∀ i, i + 1 = b + cc.length + 1 + cb.length + 1 → Bounded b (b + cc.length + 1 + cb.length + 1)
      (BackIn d sc [.whileDo cond body] b) i (.jump (label b)) :=
    fun i hi => bounded_back hstmt rfl (by omega) (Nat.le_refl b) (by omega) (by omega)
  rw [hlen] at hloop ⊢
  rw [← hc]
  simp only [each_append, length_append, length_map, length_resolve, length_resolve_stmt,
    length_singleton, ← Nat.add_assoc]
  refine ⟨⟨⟨?_, ?_⟩, hloop⟩, ?_⟩
  · exact each_well (genCond_ahead cond hcc (by omega) (targets_of_patched hleaves (by omega) (by omega)
      (Nat.le_refl _)) (by omega)) (Nat.le_refl b) (by omega)
  · simp only [plain, map_cons, map_nil, each_cons, each_nil, and_true]
    exact bounded_jump (.inl rfl) (by omega) (by omega) (by omega) (by omega)
  · simp [plain, each_cons, each_nil]
    exact hback _ (by omega)

theorem repeat_well (cond : Expr) (hbody : BodyWell d sc body) : StmtWell d sc (.repeatUntil body cond) := by
  intro b c hc hb hpatched
  have hstmt := hc
  simp only [genStmt, bind_some, Option.some.injEq] at hc
  obtain ⟨cb, hcb, cc, hcc, hc⟩ := hc
  have hlen : b + c.length = b + cb.length + cc.length + 1 := by
    rw [← hc]
    simp
    omega
  have hleaves : ¬ cond.leaves .onEnd := by simpa [Statement.patched] using hpatched _ .here
  have hloop := hbody.loop .repeatBody hstmt hcb hb hpatched
  have hback : ∀ i, i + 1 = b + cb.length + cc.length + 1 → Bounded b (b + cb.length + cc.length + 1)
      (BackIn d sc [.repeatUntil body cond] b) i (.jump (label b)) :=
    fun i hi => bounded_back hstmt rfl (by omega) (Nat.le_refl b) (by omega) (by omega)
  rw [hlen] at hloop ⊢
  rw [← hc]
  simp only [each_append, length_append, length_map, length_resolve, length_resolve_stmt, ← Nat.add_assoc]
  refine ⟨⟨hloop, ?_⟩, ?_⟩
  · exact each_well (genCond_ahead cond hcc (by omega) (targets_of_patched hleaves (by omega) (by omega)
      (Nat.le_refl _)) (by omega)) (by omega) (by omega)
  · simp only [plain, map_cons, map_nil, each_cons, each_nil, and_true]
    exact hback _ (by omega)

theorem for_well (x : String) (start stop : Expr) (step : Option Expr)
    (hbody : BodyWell d sc body) : StmtWell d sc (.forDo x start stop step body) := by
  intro b c hc hb hpatched
  have hstmt := hc
  simp only [genStmt, bind_some, Option.some.injEq, Prod.exists] at hc
  obtain ⟨var, hvar, cs, hcs, s, sc₁, hs, ce, hce, cb, hcb, ct, hct, hc⟩ := hc
  have hlen : b + c.length = b + cs.length + ce.length + 2 + cb.length + ct.length + 2 := by
    rw [← hc]
    simp
    omega
  have hloop := hbody.loop (.forBody hvar hcs hs hce) hstmt hcb hb hpatched
  have hback : ∀ i, i + 1 = b + c.length → Bounded b (b + c.length)
      (BackIn d sc [.forDo x start stop step body] b) i (.jump (label (b + cs.length))) :=
    fun i hi => bounded_back hstmt rfl hi (by omega) (by omega) (by omega)
  have hstep : Each (Ahead (b + cs.length + ce.length + 2 + cb.length + ct.length))
      (b + cs.length + ce.length + 2 + cb.length) ct := by
    unfold genStep at hct
    split at hct
    · exact genExpr_ahead _ hct (by omega)
    · cases hct
      simp
  rw [hlen] at hloop hback ⊢
  rw [← hc]
  simp only [each_append, length_append, length_map, length_resolve_stmt, length_cons,
    length_nil, ← Nat.add_assoc, plain, map_append, map_cons, map_nil, each_cons, each_nil,
    and_true]
  refine ⟨⟨⟨?_, ?_, ?_, ?_⟩, ?_⟩, ?_, ?_, ?_⟩
  · exact each_well (genExpr_ahead start hcs (by omega)) (Nat.le_refl b) (by omega)
  · exact each_well (genExpr_ahead stop hce (by omega)) (by omega) (by omega)
  · exact straight_cmp.bounded
  · exact bounded_jump (.inr rfl) (by omega) (by omega) (by omega) (by omega)
  · exact hloop
  · exact each_well hstep (by omega) (by omega)
  · exact straight_arith.bounded
  · exact hback _ (by omega)

/-! ### `CASE` -/

/-- `body` is the body of one of the branches at `b`, and its code starts at `b₀`. -/
def BranchAt (d : Decls) (sc : Scratch) (var : UInt8) (cases : List (List Int64 × List Statement)) (b : Nat)
    (body : List Statement) (b₀ : Nat) : Prop :=
  ∃ front labels back cf cl, cases = front ++ (labels, body) :: back ∧ genCases d sc var front b = some cf ∧
    genLabels sc var labels = some cl ∧ b₀ = b + cf.length + cl.length + 1

/-- As `Well`, where the jumps to the end are open too. -/
def WellCase (lo hi : Nat) (back exits : Nat → Prop) (i : Nat) : Slot (Option Unit) Instruction → Prop
  | .done x => Bounded lo hi back i x
  | .hole none x => x = .jump 0
  | .hole (some _) x => x = .jump 0 ∧ exits i

def CasesWell (d : Decls) (sc : Scratch) (var : UInt8) (cases : List (List Int64 × List Statement)) : Prop :=
  ∀ {b c} (back exits : Nat → Prop), genCases d sc var cases b = some c → b + c.length < 2 ^ 32 →
    (∀ br ∈ cases, ∀ s, Occurs br.2 s → s.patched) →
    (∀ body b₀ i, BranchAt d sc var cases b body b₀ → (BackIn d sc body b₀ i → back i) ∧
      (ExitIn d sc body b₀ i → exits i)) →
    Each (WellCase b (b + c.length) back exits) b c

theorem genLabels_ahead {var : UInt8} {vs : List Int64} {cl : StmtCode} {base n : Nat}
    (h : genLabels sc var vs = some cl) (hn : base + cl.length ≤ n) (hbound : n < 2 ^ 32) :
    Each (Ahead n) base (cl.resolve (label n)) := by
  induction vs generalizing base cl with
  | nil => cases h; simp [StmtCode.resolve]
  | cons v vs ih =>
    simp only [genLabels, bind_some, Option.some.injEq, Prod.exists] at h
    obtain ⟨s, _, _, c, hc, rfl⟩ := h
    simp only [length_cons] at hn
    simp [StmtCode.resolve, each_cons, Slot.resolve, Straight.ahead, straight_loadImm, straight_cmp, retarget_jumpIf]
    refine ⟨?_, ih hc (by omega)⟩
    intro t ht
    rw [ht.target (.inr rfl), label_toNat hbound]
    omega

theorem cases_well_cons {var : UInt8} {values : List Int64}
    {rest : List (List Int64 × List Statement)} (hbody : BodyWell d sc body) (hrest : CasesWell d sc var rest) :
    CasesWell d sc var ((values, body) :: rest) := by
  intro b c back exits hc hb hpatched hbranch
  have hall := hc
  simp only [genCases, bind_some, Option.some.injEq] at hc
  obtain ⟨cl, hcl, cb, hcb, cr, hcr, hc⟩ := hc
  have hlen : b + c.length = b + cl.length + 1 + cb.length + 1 + cr.length := by
    rw [← hc]
    simp
    omega
  have hone : ∃ cf, genCases d sc var [(values, body)] b = some cf ∧
      b + cf.length = b + cl.length + 1 + cb.length + 1 := by
    simp only [genCases, Option.bind_eq_bind, hcl, hcb, Option.bind_some]
    refine ⟨_, rfl, ?_⟩
    simp
    omega
  have hthis := hbody hcb (by omega) fun s hs => hpatched _ mem_cons_self s hs
  have hothers := hrest back exits hcr (by omega)
    (fun br hbr => hpatched br (mem_cons_of_mem _ hbr)) (by
      -- the branches behind this one are branches of the whole
      rintro body' b₀ i ⟨front, labels, after, cf, cl', rfl, hcf, hcl', rfl⟩
      obtain ⟨c₁, hc₁, hlen₁⟩ := hone
      refine hbranch body' _ i ⟨(values, body) :: front, labels, after, c₁ ++ cf, cl', rfl, ?_, hcl', ?_⟩
      · simp only [genCases, Option.bind_eq_bind, hcl, hcb, Option.bind_some, Option.some.injEq] at hc₁ ⊢
        rw [hcf, Option.bind_some, ← hc₁, List.append_nil]
      · rw [length_append]
        omega)
  rw [hlen]
  rw [← hc]
  simp only [each_append, length_append, length_map, length_resolve_stmt, length_singleton,
    ← Nat.add_assoc]
  refine ⟨⟨⟨⟨?_, ?_⟩, ?_⟩, ?_⟩, ?_⟩
  · rw [each_map]
    refine (genLabels_ahead hcl (Nat.le_add_right _ 1) (by omega)).imp ?_
    intro i x hi _ hx
    exact hx.bounded hi (by omega)
  · simp only [each_cons, each_nil, and_true]
    exact bounded_jump (.inl rfl) (by omega) (by omega) (by omega) (by omega)
  · rw [each_map]
    refine hthis.imp ?_
    intro i slot _ _ hslot
    have hlift := hbranch body _ i ⟨[], values, rest, [], cl, rfl, rfl, hcl, rfl⟩
    cases slot with
    | done x =>
      intro t ht
      obtain ⟨hlo, hhi, hback⟩ := hslot t ht
      exact ⟨by omega, by omega, fun hzero => hlift.1 (hback hzero)⟩
    | hole k x => exact ⟨hslot.1, hlift.2 hslot.2⟩
  · simp only [each_cons, each_nil, and_true]
    rfl
  · refine hothers.imp ?_
    intro i slot hi _ hslot
    rcases slot with x | ⟨_ | k, x⟩
    · intro t ht
      obtain ⟨hlo, hhi, hback⟩ := hslot t ht
      exact ⟨by omega, by omega, hback⟩
    · exact hslot
    · exact hslot

theorem case_well {x : String} {cases : List (List Int64 × List Statement)} {elseBody : List Statement}
    (hcases : ∀ var, CasesWell d sc var cases) (helse : BodyWell d sc elseBody) :
    StmtWell d sc (.case x cases elseBody) := by
  intro b c hc hb hpatched
  have hstmt := hc
  simp only [genStmt, bind_some, Option.some.injEq] at hc
  obtain ⟨var, hvar, cc, hcc, ce, hce, hc⟩ := hc
  have hlen : b + c.length = b + cc.length + ce.length := by
    rw [← hc]
    simp
    omega
  have hrest := helse.part (.caseElse hvar hcc) hstmt hce (by simp [Statement.isLoop]) hb hpatched
  have hbranches := hcases var (BackIn d sc [.case x cases elseBody] b)
    (ExitIn d sc [.case x cases elseBody] b) hcc (by omega)
    (fun br hbr s hs => hpatched s (.inside (by
      simp only [Statement.bodies, mem_append, mem_map]
      exact .inl ⟨br, hbr, rfl⟩) hs)) (by
      rintro body b₀ i ⟨front, labels, after, cf, cl, rfl, hcf, hcl, rfl⟩
      have hpart : Part d sc (.case x (front ++ (labels, body) :: after) elseBody) b body _ := .branch hvar hcf hcl
      exact ⟨fun h => h.inside hstmt hpart, fun h => h.inside hstmt hpart (by simp [Statement.isLoop])⟩)
  rw [hlen] at hrest ⊢
  rw [← hc]
  simp only [each_append, length_map]
  refine ⟨?_, hrest⟩
  rw [each_map]
  refine hbranches.imp ?_
  intro i slot hi hilt hslot
  rcases slot with y | ⟨_ | k, y⟩
  · intro t ht
    obtain ⟨hlo, hhi, hback⟩ := hslot t ht
    exact ⟨hlo, by omega, hback⟩
  · obtain rfl : y = .jump 0 := hslot
    exact bounded_jump (.inl rfl) hi (by omega) (Nat.le_refl _) (by omega)
  · exact hslot

/-! ### All statements -/

theorem ret_well : StmtWell d sc .ret := by
  intro b c hc _ _
  cases hc
  apply plain_well
  simp

theorem exit_well : StmtWell d sc .exit := by
  intro b c hc _ _
  cases hc
  simp only [each_cons, each_nil, and_true]
  exact ⟨rfl, fun outer => .here⟩

theorem funCall_well (name : String) (args : List Expr) : StmtWell d sc (.funCall name args) := by
  intro b c hc hb _
  simp only [genStmt, bind_some, Option.some.injEq] at hc
  obtain ⟨l, hl, rfl⟩ := hc
  rw [length_map] at hb
  exact plain_well (genFunCall_ahead hl hb)

theorem body_well_nil : BodyWell d sc [] := by
  intro b c hc _ _
  cases hc
  exact each_nil

theorem body_well_cons (hs : StmtWell d sc s) (hrest : BodyWell d sc rest) : BodyWell d sc (s :: rest) := by
  intro b c hc hb hpatched
  simp only [genBody, bind_some, Option.some.injEq] at hc
  obtain ⟨c₁, hc₁, c₂, hc₂, rfl⟩ := hc
  rw [length_append] at hb ⊢
  have hhead := hs hc₁ (by omega) fun s' hs' => hpatched s' hs'.head
  have htail := hrest hc₂ (by omega) fun s' hs' => hpatched s' (.after hs')
  rw [each_append]
  constructor
  · refine hhead.imp ?_
    intro i slot _ _ hslot
    cases slot with
    | done x =>
      intro t ht
      obtain ⟨hlo, hhi, hback⟩ := hslot t ht
      exact ⟨hlo, by omega, fun hzero => (hback hzero).head⟩
    | hole k x => exact ⟨hslot.1, hslot.2.head⟩
  · refine htail.imp ?_
    intro i slot _ _ hslot
    cases slot with
    | done x =>
      intro t ht
      obtain ⟨hlo, hhi, hback⟩ := hslot t ht
      exact ⟨by omega, by omega, fun hzero => (hback hzero).after hc₁⟩
    | hole k x => exact ⟨hslot.1, hslot.2.after hc₁⟩

theorem cases_well_nil (var : UInt8) : CasesWell d sc var [] := by
  intro b c back exits hc _ _ _
  cases hc
  exact each_nil

mutual

theorem stmt_well : (s : Statement) → StmtWell d sc s
  | .assign name value => assign_well name value
  | .arrayAssign name index value => arrayAssign_well name index value
  | .ifThen cond thenBody elseBody => if_well cond (body_well thenBody) (body_well elseBody)
  | .whileDo cond body => while_well cond (body_well body)
  | .forDo x start stop step body => for_well x start stop step (body_well body)
  | .repeatUntil body cond => repeat_well cond (body_well body)
  | .ret => ret_well
  | .exit => exit_well
  | .case _ cases elseBody => case_well (fun var => cases_well cases var) (body_well elseBody)
  | .funCall name args => funCall_well name args

theorem body_well : (body : List Statement) → BodyWell d sc body
  | [] => body_well_nil
  | s :: rest => body_well_cons (stmt_well s) (body_well rest)

theorem cases_well : (cases : List (List Int64 × List Statement)) → (var : UInt8) → CasesWell d sc var cases
  | [], var => cases_well_nil var
  | (_, body) :: rest, var => cases_well_cons (body_well body) (cases_well rest var)

end

end

end Audesys.St
