import FrontEnd.Reader

/-!
# Outcomes of a parse

A parser takes a reader and ends with a value or with a syntax error; in both cases the reader goes
on from where the parser stopped.

* `Outcome` — how a parser ends; `Outcome.bind` runs a second parser behind a first.
* `Outcome.Leaves` — a success leaves at most `n` tokens, less `k`.
* `Bounded` — an outcome with such a bound, for parsers that recurse on what is left.
* `expectMark`, `expectName` — take one token of the wanted kind.  They take the token also when
  they refuse it.
-/

namespace FrontEnd

/-- How a parser ends: with a value, or refusing a token. -/
inductive Outcome (α : Type) where
  | done (value : α) (rest : Reader)
  | refused (error : Mismatch) (rest : Reader)
deriving DecidableEq, Repr

namespace Outcome

variable {α β : Type}

/-- The reader behind the parse. -/
def rest : Outcome α → Reader
  | done _ r => r
  | refused _ r => r

/-- Go on with another parser, unless the first refused. -/
def bind (o : Outcome α) (f : α → Reader → Outcome β) : Outcome β :=
  match o with
  | done a r => f a r
  | refused e r => refused e r

/-- Change the value of a success. -/
def map (f : α → β) (o : Outcome α) : Outcome β := o.bind fun a r => done (f a) r

@[simp] theorem bind_done (a : α) (r : Reader) (f : α → Reader → Outcome β) :
    (done a r).bind f = f a r := rfl

@[simp] theorem bind_refused (e : Mismatch) (r : Reader) (f : α → Reader → Outcome β) :
    (refused e r).bind f = refused e r := rfl

@[simp] theorem map_done (f : α → β) (a : α) (r : Reader) : (done a r).map f = done (f a) r := rfl

@[simp] theorem map_refused (f : α → β) (e : Mismatch) (r : Reader) :
    (refused e r).map f = refused e r := rfl

/-- A success leaves at least `k` tokens fewer than `n`. -/
def Leaves (k n : Nat) : Outcome α → Prop
  | done _ r => r.remaining + k ≤ n
  | refused _ _ => True

@[simp] theorem leaves_done {k n : Nat} {a : α} {r : Reader} :
    (done a r).Leaves k n ↔ r.remaining + k ≤ n := Iff.rfl

@[simp] theorem leaves_refused {k n : Nat} {e : Mismatch} {r : Reader} :
    (refused e r : Outcome α).Leaves k n := trivial

theorem Leaves.weaken {k k' n n' : Nat} {o : Outcome α} (h : o.Leaves k n)
    (hn : n + k' ≤ n' + k) : o.Leaves k' n' := by
  cases o with
  | done a r => simp at *; omega
  | refused => trivial

theorem Leaves.bind {k n k' n' : Nat} {o : Outcome α} {f : α → Reader → Outcome β}
    (h : o.Leaves k n) (hf : ∀ a r, r.remaining + k ≤ n → (f a r).Leaves k' n') :
    (o.bind f).Leaves k' n' := by
  cases o with
  | done a r => exact hf a r h
  | refused => trivial

theorem Leaves.map {k n : Nat} {o : Outcome α} (h : o.Leaves k n) (f : α → β) :
    (o.map f).Leaves k n := h.bind fun _ _ hr => hr

end Outcome

/-- An outcome whose success leaves at least `k` tokens fewer than `n`. -/
structure Bounded (k n : Nat) (α : Type) where
  outcome : Outcome α
  leaves : outcome.Leaves k n

namespace Bounded

variable {α β : Type} {k n k' n' : Nat}

/-- Go on behind a success; what follows learns how many tokens are left. -/
def bind (o : Bounded k n α) (f : (a : α) → (r : Reader) → r.remaining + k ≤ n → Bounded k' n' β) :
    Bounded k' n' β :=
  match o with
  | ⟨.done a r, h⟩ => f a r h
  | ⟨.refused e r, _⟩ => ⟨.refused e r, trivial⟩

def weaken (o : Bounded k n α) (h : n + k' ≤ n' + k) : Bounded k' n' α :=
  ⟨o.outcome, o.leaves.weaken h⟩

@[simp] theorem outcome_weaken (o : Bounded k n α) (h : n + k' ≤ n' + k) :
    (o.weaken h).outcome = o.outcome := rfl

/-- The bounds leave no trace in the outcome. -/
theorem outcome_bind (o : Bounded k n α)
    (f : (a : α) → (r : Reader) → r.remaining + k ≤ n → Bounded k' n' β)
    (g : α → Reader → Outcome β) (h : ∀ a r hr, (f a r hr).outcome = g a r) :
    (o.bind f).outcome = o.outcome.bind g := by
  obtain ⟨_ | _, _⟩ := o
  · exact h _ _ _
  · rfl

end Bounded

def expectMark (m : Mark) (r : Reader) : Outcome Unit :=
  if r.get.1.kind = .mark m then .done () r.get.2
  else .refused ⟨.mark m, r.get.1⟩ r.get.2

def expectName (e : Expectation) (r : Reader) : Outcome String :=
  match r.get.1.identifier? with
  | some name => .done name r.get.2
  | none => .refused ⟨e, r.get.1⟩ r.get.2

theorem expectMark_leaves (m : Mark) (r : Reader) : (expectMark m r).Leaves 1 r.remaining := by
  unfold expectMark
  split
  · rename_i h
    have := r.remaining_get
    simpa [Reader.weight, h] using this
  · trivial

theorem expectName_leaves (e : Expectation) (r : Reader) :
    (expectName e r).Leaves 1 r.remaining := by
  unfold expectName
  split
  · rename_i name h
    have := r.remaining_get
    have kind : r.get.1.kind = .identifier := by rw [Token.identifier?_eq_some_iff.1 h]
    simpa [Reader.weight, kind] using this
  · trivial

end FrontEnd
