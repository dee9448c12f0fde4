import Audesys.Il.Syntax
import Audesys.Ld.Compiler
import Mathlib.Data.List.Forall2

/-!
# `Ld.Rung` — rungs of contacts in series, from their text to statements

A rung has at least one contact, its contacts are in series, and it ends in coils. Its ladder text compiles to one
line of Instruction List for each contact and coil, and these lines are read as one statement each
(`parse_ladder`).
-/

open List

namespace Audesys.Ld

open Audesys.Lib

variable {rungs : List Rung}

/-! ## Rungs -/

structure SeriesContact where
  normallyOpen : Bool
  var : String
  deriving DecidableEq

structure RungCoil where
  kind : Compiler.CoilKind
  var : String
  deriving DecidableEq

/-- A rung: the first contact, the contacts behind it, and the coils. -/
structure Rung where
  id : String
  first : SeriesContact
  rest : List SeriesContact
  coils : List RungCoil
  deriving DecidableEq

namespace Rung

def contacts (rung : Rung) : List SeriesContact := rung.first :: rung.rest

def names (rung : Rung) : List String := rung.contacts.map SeriesContact.var ++ rung.coils.map RungCoil.var

end Rung

/-- The variables of the rungs are upper case names, and among ten. -/
structure WellNamed [CaseMap] (rungs : List Rung) : Prop where
  ten : ∃ names : List String, names.length ≤ 10 ∧ ∀ rung ∈ rungs, ∀ x ∈ rung.names, x ∈ names
  name : ∀ rung ∈ rungs, ∀ x ∈ rung.names, Il.IsName x
  upper : ∀ rung ∈ rungs, ∀ x ∈ rung.names, IsUpper x.toList

/-! ## Text -/

def SeriesContact.keyword (c : SeriesContact) : String := if c.normallyOpen then "NO" else "NC"

def RungCoil.keyword (c : RungCoil) : String :=
  match c.kind with
  | .out => "OUT"
  | .set => "SET"
  | .reset => "RESET"

/-- The lines of a rung. -/
def Rung.text (rung : Rung) : List String :=
  "NETWORK" :: (rung.contacts.map (fun c => "  " ++ (c.keyword ++ " " ++ c.var)) ++
    rung.coils.map fun c => "  " ++ (c.keyword ++ " " ++ c.var))

def ladderText (rungs : List Rung) : String := "\n".intercalate (rungs.flatMap Rung.text)

/-! ## Tokens -/

def SeriesContact.token (c : SeriesContact) : Compiler.Token := if c.normallyOpen then .no c.var else .nc c.var

def RungCoil.token (c : RungCoil) : Compiler.Token :=
  match c.kind with
  | .out => .out c.var
  | .set => .set c.var
  | .reset => .reset c.var

def Rung.tokens (rung : Rung) : List Compiler.Token :=
  .network :: (rung.contacts.map SeriesContact.token ++ rung.coils.map RungCoil.token)

section
variable [CaseMap]

/-- A keyword and a name behind it. -/
theorem reads_keyword {k x : String} (hk : k.toList ≠ [] ∧ k.toList.all (fun c => !isWhitespace c) = true)
    (hascii : k.toList.all (fun c => decide (c.toNat < 128) && decide (c.toUpper = c)) = true) (hx : Il.IsName x)
    (hupper : IsUpper x.toList) {tok : Compiler.Token}
    (htok : ∀ line, Compiler.upperWords line = [k, x] → Compiler.parseLine line = tok) :
    Compiler.Reads ("  " ++ (k ++ " " ++ x)) tok :=
  Compiler.reads_pair (.of_all hk.1 hk.2) (.of_ascii hascii) hx.word hupper htok

theorem reads_contact {c : SeriesContact} (hx : Il.IsName c.var) (hupper : IsUpper c.var.toList) :
    Compiler.Reads ("  " ++ (c.keyword ++ " " ++ c.var)) c.token := by
  obtain ⟨normallyOpen, x⟩ := c
  cases normallyOpen with
  | true =>
    exact reads_keyword (k := "NO") (by decide) (by decide) hx hupper fun line hwords => by
      simp only [Compiler.parseLine, hwords]; rfl
  | false =>
    exact reads_keyword (k := "NC") (by decide) (by decide) hx hupper fun line hwords => by
      simp only [Compiler.parseLine, hwords]; rfl

theorem reads_coil {c : RungCoil} (hx : Il.IsName c.var) (hupper : IsUpper c.var.toList) :
    Compiler.Reads ("  " ++ (c.keyword ++ " " ++ c.var)) c.token := by
  obtain ⟨kind, x⟩ := c
  cases kind with
  | out =>
    exact reads_keyword (k := "OUT") (by decide) (by decide) hx hupper fun line hwords => by
      simp only [Compiler.parseLine, hwords]; rfl
  | set =>
    exact reads_keyword (k := "SET") (by decide) (by decide) hx hupper fun line hwords => by
      simp only [Compiler.parseLine, hwords]; rfl
  | reset =>
    exact reads_keyword (k := "RESET") (by decide) (by decide) hx hupper fun line hwords => by
      simp only [Compiler.parseLine, hwords]; rfl

/-- **The text of a rung** is read line by line. -/
theorem reads_rung {rung : Rung} (hname : ∀ x ∈ rung.names, Il.IsName x) (hupper : ∀ x ∈ rung.names, IsUpper x.toList) :
    List.Forall₂ Compiler.Reads rung.text rung.tokens := by
  refine .cons Compiler.reads_network (rel_append ?_ ?_)
  · rw [forall₂_map_left_iff, forall₂_map_right_iff, forall₂_same]
    intro c hc
    have hin : c.var ∈ rung.names := mem_append_left _ (mem_map_of_mem hc)
    exact reads_contact (hname _ hin) (hupper _ hin)
  · rw [forall₂_map_left_iff, forall₂_map_right_iff, forall₂_same]
    intro c hc
    have hin : c.var ∈ rung.names := mem_append_right _ (mem_map_of_mem hc)
    exact reads_coil (hname _ hin) (hupper _ hin)

theorem tokenize_ladder (h : WellNamed rungs) :
    Compiler.tokenize (ladderText rungs) = rungs.flatMap Rung.tokens := by
  refine Compiler.tokenize_lines ?_
  have hall : ∀ rung ∈ rungs, List.Forall₂ Compiler.Reads rung.text rung.tokens :=
    fun rung hrung => reads_rung (h.name rung hrung) (h.upper rung hrung)
  clear h
  induction rungs with
  | nil => exact .nil
  | cons rung rungs ih =>
    exact rel_append (hall rung mem_cons_self) (ih fun r hr => hall r (mem_cons_of_mem _ hr))

end

/-! ## Networks -/

def SeriesContact.element (c : SeriesContact) : Compiler.LdElement := .contact c.normallyOpen c.var

def RungCoil.element (c : RungCoil) : Compiler.LdElement := .coil c.kind c.var

def Rung.elements (rung : Rung) : List Compiler.LdElement :=
  rung.contacts.map SeriesContact.element ++ rung.coils.map RungCoil.element

theorem SeriesContact.token_element (c : SeriesContact) : c.token ≠ .network ∧ c.token.element? = some c.element := by
  obtain ⟨normallyOpen, x⟩ := c
  cases normallyOpen with
  | true => exact ⟨nofun, rfl⟩
  | false => exact ⟨nofun, rfl⟩

theorem RungCoil.token_element (c : RungCoil) : c.token ≠ .network ∧ c.token.element? = some c.element := by
  obtain ⟨kind, x⟩ := c
  cases kind with
  | out => exact ⟨nofun, rfl⟩
  | set => exact ⟨nofun, rfl⟩
  | reset => exact ⟨nofun, rfl⟩

/-- Tokens of elements go to the network that is being read. -/
theorem parseNetworksFrom_elements {toks : List Compiler.Token} {elements : List Compiler.LdElement}
    (h : List.Forall₂ (fun tok element => tok ≠ .network ∧ tok.element? = some element) toks elements)
    (current : List Compiler.LdElement) (rest : List Compiler.Token) :
    Compiler.parseNetworksFrom current (toks ++ rest) = Compiler.parseNetworksFrom (current ++ elements) rest := by
  induction h generalizing current with
  | nil =>
    rw [List.append_nil]
    rfl
  | @cons tok element toks elements hcons _ ih =>
    obtain ⟨hne, helement⟩ := hcons
    rw [cons_append, Compiler.parseNetworksFrom, ih, helement, List.append_assoc]
    · rfl
    · exact hne

theorem parseNetworks_ladder (rungs : List Rung) :
    Compiler.parseNetworks (rungs.flatMap Rung.tokens) = rungs.map Rung.elements := by
  -- the network that is being read is complete when the next one starts
  suffices hgen : ∀ current : List Compiler.LdElement, Compiler.parseNetworksFrom current (rungs.flatMap Rung.tokens) =
      (if current.isEmpty then [] else [current]) ++ rungs.map Rung.elements from hgen []
  induction rungs with
  | nil =>
    intro current
    exact (List.append_nil _).symm
  | cons rung rungs ih =>
    intro current
    have hbody : List.Forall₂ (fun tok element => tok ≠ Compiler.Token.network ∧ tok.element? = some element)
        (rung.contacts.map SeriesContact.token ++ rung.coils.map RungCoil.token) rung.elements := by
      refine rel_append ?_ ?_
      · rw [forall₂_map_left_iff, forall₂_map_right_iff, forall₂_same]
        exact fun c _ => c.token_element
      · rw [forall₂_map_left_iff, forall₂_map_right_iff, forall₂_same]
        exact fun c _ => c.token_element
    have hrung : Compiler.parseNetworksFrom [] ((rung.contacts.map SeriesContact.token ++
        rung.coils.map RungCoil.token) ++ rungs.flatMap Rung.tokens) = rung.elements :: rungs.map Rung.elements := by
      rw [parseNetworksFrom_elements hbody, ih]
      rfl
    show Compiler.parseNetworksFrom current (.network :: ((_ ++ _) ++ rungs.flatMap Rung.tokens)) = _
    rw [Compiler.parseNetworksFrom, hrung]
    split <;> rfl

/-! ## Instruction List -/

/-- The statement of the first contact. -/
def SeriesContact.load (c : SeriesContact) : Il.ILStatement := if c.normallyOpen then .load c.var else .loadNot c.var

/-- The statement of another one. -/
def SeriesContact.and (c : SeriesContact) : Il.ILStatement := if c.normallyOpen then .and c.var else .andNot c.var

def RungCoil.stmt (c : RungCoil) : Il.ILStatement :=
  match c.kind with
  | .out => .store c.var
  | .set => .set c.var
  | .reset => .reset c.var

def Rung.stmts (rung : Rung) : List Il.ILStatement :=
  rung.first.load :: (rung.rest.map SeriesContact.and ++ rung.coils.map RungCoil.stmt)

/-- The mnemonic and the blank of a line. -/
theorem written_line {k m x : String} {tok : Il.Token} {statement : String → Il.ILStatement} (hk : k = m ++ " ")
    (hm : Il.parseMnemonic m = some tok) (hstatement : tok.withOperand? = some statement) (hx : Il.IsName x) :
    Il.Written (k ++ x) (statement x) := by
  rw [hk]
  exact .mk hm hstatement hx

theorem written_coils {coils : List RungCoil} (h : ∀ c ∈ coils, Il.IsName c.var) (firstContact : Bool) :
    List.Forall₂ Il.Written (Compiler.networkLines firstContact (coils.map RungCoil.element))
      (coils.map RungCoil.stmt) := by
  induction coils with
  | nil => exact .nil
  | cons c coils ih =>
    refine .cons ?_ (ih fun c' hc' => h c' (mem_cons_of_mem _ hc'))
    have hx := h c mem_cons_self
    obtain ⟨kind, x⟩ := c
    cases kind with
    | out => exact @Il.Written.mk "ST" x _ _ rfl rfl hx
    | set => exact @Il.Written.mk "S" x _ _ rfl rfl hx
    | reset => exact @Il.Written.mk "R" x _ _ rfl rfl hx

/-- Behind the first contact. -/
theorem written_rest {rest : List SeriesContact} {coils : List RungCoil} (hrest : ∀ c ∈ rest, Il.IsName c.var)
    (hcoils : ∀ c ∈ coils, Il.IsName c.var) : List.Forall₂ Il.Written
      (Compiler.networkLines false (rest.map SeriesContact.element ++ coils.map RungCoil.element))
      (rest.map SeriesContact.and ++ coils.map RungCoil.stmt) := by
  induction rest with
  | nil => exact written_coils hcoils false
  | cons c rest ih =>
    have hx := hrest c mem_cons_self
    have htail := ih fun c' hc' => hrest c' (mem_cons_of_mem _ hc')
    obtain ⟨normallyOpen, x⟩ := c
    cases normallyOpen with
    | true => exact .cons (@written_line "AND " "AND" x _ _ (by decide) rfl rfl hx) htail
    | false => exact .cons (@written_line "ANDN " "ANDN" x _ _ (by decide) rfl rfl hx) htail

/-- **The lines of a rung** are one statement each. -/
theorem written_rung {rung : Rung} (hname : ∀ x ∈ rung.names, Il.IsName x) :
    List.Forall₂ Il.Written (Compiler.networkLines true rung.elements) rung.stmts := by
  have hcontact : ∀ c ∈ rung.contacts, Il.IsName c.var :=
    fun c hc => hname _ (mem_append_left _ (mem_map_of_mem hc))
  have hcoil : ∀ c ∈ rung.coils, Il.IsName c.var :=
    fun c hc => hname _ (mem_append_right _ (mem_map_of_mem hc))
  obtain ⟨id, ⟨normallyOpen, x⟩, rest, coils⟩ := rung
  have hx : Il.IsName x := hcontact _ mem_cons_self
  have htail := written_rest (fun c hc => hcontact c (mem_cons_of_mem _ hc)) hcoil
  cases normallyOpen with
  | true => exact .cons (@written_line "LD " "LD" x _ _ (by decide) rfl rfl hx) htail
  | false => exact .cons (@written_line "LDN " "LDN" x _ _ (by decide) rfl rfl hx) htail

/-- The Instruction List text of the rungs. -/
def ladderIl (rungs : List Rung) : String := Compiler.generateIl (rungs.map Rung.elements)

theorem ldCompile_ladder [CaseMap] (h : WellNamed rungs) (hne : rungs ≠ []) :
    Compiler.ldCompile (ladderText rungs) = .ok (ladderIl rungs) := by
  have hsome : (rungs.flatMap Rung.tokens).isEmpty = false := by
    obtain ⟨rung, rest, rfl⟩ := exists_cons_of_ne_nil hne
    rfl
  unfold Compiler.ldCompile
  simp only [tokenize_ladder h, hsome, parseNetworks_ladder]
  rfl

theorem ldCompile_nil [CaseMap] : Compiler.ldCompile (ladderText []) = .error "empty LD source" := rfl

/-- **The text of a ladder**, compiled to Instruction List and read there. -/
theorem parse_ladder [CaseMap] (h : WellNamed rungs) :
    Il.parse (Il.tokenize (ladderIl rungs)) = rungs.flatMap Rung.stmts := by
  have hall : ∀ rung ∈ rungs, List.Forall₂ Il.Written (Compiler.networkLines true rung.elements) rung.stmts :=
    fun rung hrung => written_rung (h.name rung hrung)
  refine Il.parse_lines ?_
  rw [flatMap_map]
  clear h
  induction rungs with
  | nil => exact .nil
  | cons rung rungs ih =>
    exact rel_append (hall rung mem_cons_self) (ih fun r hr => hall r (mem_cons_of_mem _ hr))

end Audesys.Ld
