import Audesys.Il.Syntax
import Audesys.Il.Layout
import Audesys.Hal.Host
import Mathlib.Data.List.Dedup

/-!
# `Il.Registers` — how many variables there are registers for

`il_compile` documents an `Err` for too many variables and has no path to one: the eleventh variable that needs a
register panics in the middle of code generation. The operand of a `ST`, the labels and the names of function blocks
that are called need none (`ilCompile_returns_iff`).
-/

namespace Audesys.Il

open Audesys.Hal Audesys.Lib

/-- The variables that the statements need registers for. -/
def regVars (stmts : List ILStatement) : List String := stmts.filterMap ILStatement.regVar?

theorem mem_regVars {stmts : List ILStatement} {x : String} : x ∈ regVars stmts ↔ ∃ s ∈ stmts, s.regVar? = some x :=
  List.mem_filterMap

section
variable [Target]

/-- The variables all have registers, of which there are ten. -/
theorem length_regVars_le {stmts : List ILStatement} {cg : Codegen}
    (h : stmts.foldlM Codegen.compileStmt (Codegen.new.emitLoadImm trueReg (.bool true)) = some cg) :
    (regVars stmts).dedup.length ≤ 10 := by
  obtain ⟨used, hall, _, hreg, _⟩ := compileStmts_eq allocated_first h
  have hsub : (regVars stmts).dedup ⊆ used := by
    intro x hx
    obtain ⟨s, hs, hvar⟩ := mem_regVars.1 (List.mem_dedup.1 hx)
    exact (hall.mem x).2 (hreg s hs x hvar)
  have hlen := (List.subperm_of_subset (List.nodup_dedup _) hsub).length_le
  have hused := hall.length
  have hbound := hall.bound
  omega

theorem compileAst_isSome_iff (stmts : List ILStatement) :
    (∃ code, compileAst stmts = some code) ↔ (regVars stmts).dedup.length ≤ 10 := by
  unfold compileAst Codegen.compile
  constructor
  · rintro ⟨code, hcode⟩
    obtain ⟨cg, hfold, _⟩ := Option.bind_eq_some_iff.1 hcode
    exact length_regVars_le hfold
  · intro hten
    have hin : ∀ s ∈ stmts, ∀ x, s.regVar? = some x → x ∈ (regVars stmts).dedup := by
      intro s hs x hx
      exact List.mem_dedup.2 (mem_regVars.2 ⟨s, hs, hx⟩)
    obtain ⟨cg, hfold⟩ := compileStmts_isSome hten stmts hin allocated_first (List.nil_subset _)
    rw [hfold]
    exact ⟨_, rfl⟩

/-- **Where `il_compile` returns**: on a text whose statements need registers for at most ten variables. -/
theorem ilCompile_returns_iff [CaseMap] (source : String) :
    (∃ program, ilCompile source = some program) ↔ (regVars (parse (tokenize source))).dedup.length ≤ 10 := by
  rw [← compileAst_isSome_iff]
  unfold ilCompile
  cases compileAst (parse (tokenize source)) with
  | none =>
    constructor
    · rintro ⟨program, h⟩
      cases h
    · rintro ⟨code, h⟩
      cases h
  | some code => exact ⟨fun _ => ⟨code, rfl⟩, fun _ => ⟨_, rfl⟩⟩

end

end Audesys.Il

namespace Audesys.Il

open Audesys.Hal Audesys.Lib

/-- A release build. -/
local instance releaseRegisters : Target := host false

local instance asciiRegisters : CaseMap := .ascii

/-- Eleven variables, one on each line. -/
def elevenLines : List String :=
  ["LD X1", "ADD X2", "ADD X3", "ADD X4", "ADD X5", "ADD X6", "ADD X7", "ADD X8", "ADD X9", "ADD X10", "ADD X11"]

theorem elevenVariables_panic : ilCompile ("\n".intercalate elevenLines) = none := rfl

end Audesys.Il
