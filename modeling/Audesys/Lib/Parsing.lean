import Mathlib.Data.List.Basic

/-!
# `Lib.Parsing` — recursive descent with a bound on the recursion

A parser reads tokens from the front of a list and ends with a result and the tokens it has left, or with an
error. Recursive parsers carry a bound on the depth of their recursion, and `outOfFuel` says that it was reached.

`Settles n k p q` compares a parser under two bounds: on every input of at most `n` tokens both end, in the same
way, and a result has used up at least `k` tokens. `Consumes p Q` says what the tokens were that a result was read
from. Both compose along `>>=`.
-/

namespace Audesys.Lib

inductive Parsed (τ ε α : Type) where
  | ok (result : α) (rest : List τ)
  | error (e : ε)
  | outOfFuel

/-- What a parse that has ended returns. -/
def Parsed.ended {τ ε α : Type} : Parsed τ ε α → Option (Except ε α)
  | .ok a _ => some (.ok a)
  | .error e => some (.error e)
  | .outOfFuel => none

def Parser (τ ε α : Type) := List τ → Parsed τ ε α

variable {τ ε α β : Type}

namespace Parser

instance : Monad (Parser τ ε) where
  pure a := fun ts => .ok a ts
  bind p f := fun ts =>
    match p ts with
    | .ok a rest => f a rest
    | .error e => .error e
    | .outOfFuel => .outOfFuel

def fail (e : ε) : Parser τ ε α := fun _ => .error e

def outOfFuel : Parser τ ε α := fun _ => .outOfFuel

/-- The next token, which stays where it is. -/
def peek : Parser τ ε (Option τ) := fun ts => .ok ts.head? ts

/-- The next token is used up. At the end of the input nothing is. -/
def next : Parser τ ε (Option τ) := fun ts => .ok ts.head? ts.tail

@[simp] theorem pure_apply (a : α) (ts : List τ) : (pure a : Parser τ ε α) ts = .ok a ts := rfl

@[simp] theorem fail_apply (e : ε) (ts : List τ) : (fail e : Parser τ ε α) ts = .error e := rfl

@[simp] theorem peek_apply (ts : List τ) : (peek : Parser τ ε _) ts = .ok ts.head? ts := rfl

@[simp] theorem next_apply (ts : List τ) : (next : Parser τ ε _) ts = .ok ts.head? ts.tail := rfl

theorem bind_apply (p : Parser τ ε α) (f : α → Parser τ ε β) (ts : List τ) :
    (p >>= f) ts = match p ts with
      | .ok a rest => f a rest
      | .error e => .error e
      | .outOfFuel => .outOfFuel := rfl

@[simp] theorem bind_ok {p : Parser τ ε α} {f : α → Parser τ ε β} {ts rest : List τ} {a : α}
    (h : p ts = .ok a rest) : (p >>= f) ts = f a rest := by
  rw [bind_apply, h]

theorem bind_error {p : Parser τ ε α} {f : α → Parser τ ε β} {ts : List τ} {e : ε} (h : p ts = .error e) :
    (p >>= f) ts = .error e := by
  rw [bind_apply, h]

@[simp] theorem pure_bind (a : α) (f : α → Parser τ ε β) (ts : List τ) : (pure a >>= f : Parser τ ε β) ts = f a ts := rfl

@[simp] theorem fail_bind (e : ε) (f : α → Parser τ ε β) (ts : List τ) :
    (fail e >>= f : Parser τ ε β) ts = .error e := rfl

@[simp] theorem peek_bind (f : Option τ → Parser τ ε β) (ts : List τ) : (peek >>= f) ts = f ts.head? ts := rfl

@[simp] theorem next_bind (f : Option τ → Parser τ ε β) (ts : List τ) : (next >>= f) ts = f ts.head? ts.tail := rfl

theorem bind_eq_ok {p : Parser τ ε α} {f : α → Parser τ ε β} {ts rest : List τ} {b : β} :
    (p >>= f) ts = .ok b rest ↔ ∃ a mid, p ts = .ok a mid ∧ f a mid = .ok b rest := by
  rw [bind_apply]
  cases p ts with
  | ok a mid => simp
  | error e => simp
  | outOfFuel => simp

/-! ## Two bounds -/

/-- Two runs on `n` tokens end in the same way, with at least `k` tokens used up. -/
def SettlesAt (k n : Nat) (o o' : Parsed τ ε α) : Prop :=
  (∃ a rest, o = .ok a rest ∧ o' = .ok a rest ∧ rest.length + k ≤ n) ∨ ∃ e, o = .error e ∧ o' = .error e

theorem SettlesAt.step {n k : Nat} {o o' : Parsed τ ε α} (h : SettlesAt (k - 1) n o o') : SettlesAt k (n + 1) o o' := by
  refine h.imp ?_ id
  rintro ⟨a, rest, ho, ho', hlen⟩
  exact ⟨a, rest, ho, ho', by omega⟩

def Settles (n k : Nat) (p q : Parser τ ε α) : Prop :=
  ∀ ts : List τ, ts.length ≤ n → SettlesAt k ts.length (p ts) (q ts)

namespace Settles

variable {n k j : Nat} {p q : Parser τ ε α} {f g : α → Parser τ ε β}

theorem bind (h : Settles n k p q) (hf : ∀ a m, m + k ≤ n → Settles m (j - k) (f a) (g a)) :
    Settles n j (p >>= f) (q >>= g) := by
  intro ts hts
  obtain ⟨a, rest, hp, hq, hlen⟩ | ⟨e, hp, hq⟩ := h ts hts
  · rw [Parser.bind_ok hp, Parser.bind_ok hq]
    refine (hf a rest.length (by omega) rest (Nat.le_refl _)).imp ?_ id
    rintro ⟨b, rest', hf', hg', hlen'⟩
    exact ⟨b, rest', hf', hg', by omega⟩
  · exact .inr ⟨e, Parser.bind_error hp, Parser.bind_error hq⟩

theorem map (f : α → β) (h : Settles n k p q) : Settles n k (f <$> p) (f <$> q) :=
  h.bind fun _ _ _ ts _ => .inl ⟨_, ts, rfl, rfl, by omega⟩

theorem mono (h : Settles n k p q) {m : Nat} (hm : m ≤ n) (hj : j ≤ k) : Settles m j p q := by
  intro ts hts
  refine (h ts (by omega)).imp ?_ id
  rintro ⟨a, rest, hp, hq, hlen⟩
  exact ⟨a, rest, hp, hq, by omega⟩

theorem pure (a : α) : Settles n 0 (pure a : Parser τ ε α) (Pure.pure a) :=
  fun ts _ => .inl ⟨a, ts, rfl, rfl, Nat.le_refl _⟩

theorem fail (e : ε) : Settles n k (fail e : Parser τ ε α) (Parser.fail e) :=
  fun _ _ => .inr ⟨e, rfl, rfl⟩

theorem peek : Settles n 0 (peek : Parser τ ε _) Parser.peek :=
  fun ts _ => .inl ⟨ts.head?, ts, rfl, rfl, Nat.le_refl _⟩

/-- A token that is used up is one fewer for what follows; without one the input is at its end. -/
theorem next_bind {f g : Option τ → Parser τ ε β} (hnone : Settles 0 j (f none) (g none))
    (hsome : ∀ t m, m + 1 ≤ n → Settles m (j - 1) (f (some t)) (g (some t))) :
    Settles n j (Parser.next >>= f) (Parser.next >>= g) := by
  rintro (_ | ⟨t, ts⟩) hts
  · exact hnone [] (Nat.le_refl 0)
  · refine (hsome t ts.length hts ts (Nat.le_refl _)).imp ?_ id
    rintro ⟨b, rest, hf, hg, hlen⟩
    exact ⟨b, rest, hf, hg, by rw [List.length_cons]; omega⟩

theorem eq (h : Settles n k p q) {ts : List τ} (hts : ts.length ≤ n) : p ts = q ts := by
  obtain ⟨a, rest, hp, hq, _⟩ | ⟨e, hp, hq⟩ := h ts hts
  · rw [hp, hq]
  · rw [hp, hq]

end Settles

/-! ## What was read -/

def Consumes (p : Parser τ ε α) (Q : α → List τ → Prop) : Prop :=
  ∀ ts a rest, p ts = .ok a rest → ∃ used, ts = used ++ rest ∧ Q a used

/-- The same where `t` is the next token. -/
def ConsumesFrom (t : τ) (p : Parser τ ε α) (Q : α → List τ → Prop) : Prop :=
  ∀ ts a rest, p (t :: ts) = .ok a rest → ∃ used, t :: ts = used ++ rest ∧ Q a used

namespace Consumes

variable {p : Parser τ ε α} {f : α → Parser τ ε β} {Q Q' : α → List τ → Prop} {R : β → List τ → Prop}

theorem bind (h : Consumes p Q) (hf : ∀ a used, Q a used → Consumes (f a) (fun b more => R b (used ++ more))) :
    Consumes (p >>= f) R := by
  intro ts b rest hrun
  obtain ⟨a, mid, hp, hrest⟩ := bind_eq_ok.1 hrun
  obtain ⟨used, rfl, hused⟩ := h ts a mid hp
  obtain ⟨more, rfl, hmore⟩ := hf a used hused mid b rest hrest
  exact ⟨used ++ more, (List.append_assoc ..).symm, hmore⟩

theorem mono (h : Consumes p Q) (himp : ∀ a used, Q a used → Q' a used) : Consumes p Q' := by
  intro ts a rest hrun
  obtain ⟨used, hts, hQ⟩ := h ts a rest hrun
  exact ⟨used, hts, himp a used hQ⟩

theorem pure {a : α} (h : Q a []) : Consumes (pure a : Parser τ ε α) Q := by
  rintro ts _ _ ⟨⟩
  exact ⟨[], rfl, h⟩

theorem fail (e : ε) : Consumes (fail e : Parser τ ε α) Q := nofun

theorem outOfFuel : Consumes (outOfFuel : Parser τ ε α) Q := nofun

theorem ahead (h : Consumes p Q) (t : τ) : ConsumesFrom t p Q := fun ts => h (t :: ts)

theorem next_bind {f : Option τ → Parser τ ε β} (hnone : Consumes (f none) R)
    (hsome : ∀ t, Consumes (f (some t)) fun b used => R b (t :: used)) : Consumes (next >>= f) R := by
  rintro (_ | ⟨t, ts⟩) b rest hrun
  · exact hnone [] b rest hrun
  · obtain ⟨used, rfl, hused⟩ := hsome t ts b rest hrun
    exact ⟨t :: used, rfl, hused⟩

theorem peek_bind {f : Option τ → Parser τ ε β} (hnone : Consumes (f none) R)
    (hsome : ∀ t, ConsumesFrom t (f (some t)) R) : Consumes (Parser.peek >>= f) R := by
  rintro (_ | ⟨t, ts⟩) b rest hrun
  · exact hnone [] b rest hrun
  · exact hsome t ts b rest hrun

end Consumes

theorem ConsumesFrom.next_bind {f : Option τ → Parser τ ε β} {R : β → List τ → Prop} {t : τ}
    (h : Consumes (f (some t)) fun b used => R b (t :: used)) : ConsumesFrom t (next >>= f) R := by
  intro ts b rest hrun
  obtain ⟨used, rfl, hused⟩ := h ts b rest hrun
  exact ⟨t :: used, rfl, hused⟩

/-! ## With enough fuel -/

/-- From some fuel on, the tokens are read as `a`, up to `rest`. -/
def Yields (p : Nat → Parser τ ε α) (ts : List τ) (a : α) (rest : List τ) : Prop :=
  ∃ n, ∀ fuel, n ≤ fuel → p fuel ts = .ok a rest

namespace Yields

variable {p : Nat → Parser τ ε α} {f : Nat → α → Parser τ ε β} {ts mid rest : List τ} {a : α} {b : β}

theorem of_eq (h : ∀ fuel, p fuel ts = .ok a rest) : Yields p ts a rest := ⟨0, fun fuel _ => h fuel⟩

theorem succ (h : Yields (fun fuel => p (fuel + 1)) ts a rest) : Yields p ts a rest := by
  obtain ⟨n, hn⟩ := h
  refine ⟨n + 1, fun fuel hfuel => ?_⟩
  obtain ⟨k, rfl⟩ : ∃ k, fuel = k + 1 := ⟨fuel - 1, by omega⟩
  exact hn k (Nat.le_of_succ_le_succ hfuel)

theorem congr {q : Nat → Parser τ ε α} {ts' : List τ} (h : Yields q ts' a rest)
    (heq : ∀ fuel, p fuel ts = q fuel ts') : Yields p ts a rest := by
  obtain ⟨n, hn⟩ := h
  exact ⟨n, fun fuel hfuel => (heq fuel).trans (hn fuel hfuel)⟩

theorem bind (h : Yields p ts a mid) (hf : Yields (f · a) mid b rest) :
    Yields (fun fuel => p fuel >>= f fuel) ts b rest := by
  obtain ⟨n, hn⟩ := h
  obtain ⟨m, hm⟩ := hf
  exact ⟨max n m, fun fuel hfuel => (Parser.bind_ok (hn fuel (by omega))).trans (hm fuel (by omega))⟩

end Yields

end Parser

end Audesys.Lib
