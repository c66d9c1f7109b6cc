import FrontEnd.Parse.Outcome
import FrontEnd.Parse.Chain

/-!
# Parsing expressions

* `Parse.declaration` — `let` or `var`, a name, and perhaps a type.
* `Parse.primary` — an operand.  Where no operand stands it takes nothing and yields the empty
  expression, so it refuses nothing of its own.
* `Parse.line` — operands joined by binary operators.
* `Parse.expression` — lines separated by semicolons, nested to the right.
* `Parse.block` — an expression in braces.

The parsers call each other on what is left of the input.  They are defined together on bounded
outcomes (`Bounded.expression` and its companions), whose bounds make the recursion end; the parsers
proper are their outcomes, and the theorems `expression_eq` to `block_eq` say how each is made of
the others.
-/

namespace FrontEnd

namespace Parse

/-- Parse the rest of a variable declaration behind its keyword.  The keyword is taken unseen: it
only decides whether the variable is mutable. -/
def declaration (r : Reader) : Outcome VariableDecl :=
  let isMutable := r.get.1.keyword? == some .kwVar
  (expectName .variableName r.get.2).bind fun name r₁ =>
    if r₁.peek.1.kind = .mark .colon then
      (expectName .variableType r₁.peek.2.skip).map fun typeName => ⟨name, some typeName, isMutable⟩
    else .done ⟨name, none, isMutable⟩ r₁.peek.2

theorem declaration_leaves (r : Reader) : (declaration r).Leaves 1 r.remaining := by
  refine (expectName_leaves _ _).bind fun name r₁ h₁ => ?_
  have := r.remaining_get_le
  split
  · rename_i h
    have := Reader.remaining_skip_peek (r := r₁) (by simp [h])
    exact ((expectName_leaves _ _).weaken (by omega)).map _
  · have := r₁.remaining_peek
    simp
    omega

/-- How an operand begins. -/
inductive Operand
  /-- the operand is this one token -/
  | leaf (e : Expression)
  | declaration
  | group
  | block
  /-- no operand -/
  | none
deriving DecidableEq, Repr

/-- How the operand that begins with this token begins.  A keyword other than `let` and `var` is
an identifier like any other here. -/
def Operand.ofToken (t : Token) : Operand :=
  match t.kind with
  | .identifier =>
    match t.keyword? with
    | some .kwLet | some .kwVar => .declaration
    | _ => .leaf (.identifier t.text)
  | .number => .leaf (.number t.text)
  | .string => .leaf (.string t.text)
  | .char => .leaf (.char t.text)
  | .mark .leftParen => .group
  | .mark .leftBrace => .block
  | _ => .none

/-- The end of the file begins no operand. -/
theorem Operand.ofToken_endOfFile {t : Token} (h : t.kind = .endOfFile) :
    Operand.ofToken t = .none := by
  simp [Operand.ofToken, h]

end Parse

namespace Bounded

open Parse (Operand)

mutual

def expression (r : Reader) : Bounded 0 r.remaining Expression :=
  (line r).bind fun first r₁ h₁ =>
    if h : r₁.peek.1.kind = .mark .semicolon then
      have := Reader.remaining_skip_peek (r := r₁) (by simp [h])
      (expression r₁.peek.2.skip).bind fun next r₂ h₂ =>
        ⟨.done (.sequence first next) r₂, by simp; omega⟩
    else
      ⟨.done first r₁.peek.2, by have := r₁.remaining_peek; simp; omega⟩
termination_by 4 * r.remaining + 3

def line (r : Reader) : Bounded 0 r.remaining Expression :=
  (primary r).bind fun first r₁ h₁ => (chain [] first r₁).weaken (by omega)
termination_by 4 * r.remaining + 2

def chain (stack : List Waiting) (operand : Expression) (r : Reader) :
    Bounded 0 r.remaining Expression :=
  let s := settle r.peek.1.kind.lookahead stack operand
  let seen := r.peek.2.noteAll s.decisions
  match h : r.peek.1.kind.lookahead with
  | .finish => ⟨.done s.operand seen, by have := r.remaining_peek; simp [seen]; omega⟩
  | .operator op =>
    have := Reader.remaining_skip_peek (r := r)
      (by simp [TokenKind.lookahead_eq_operator_iff.1 h])
    (primary seen.skip).bind fun e r₁ h₁ =>
      have : r₁.remaining < r.remaining := by simp [seen] at h₁; omega
      (chain (⟨s.operand, op⟩ :: s.stack) e r₁).weaken (by omega)
termination_by 4 * r.remaining

def primary (r : Reader) : Bounded 0 r.remaining Expression :=
  match h : Operand.ofToken r.peek.1 with
  | .leaf e => ⟨.done e r.peek.2.skip, r.remaining_skip_peek_le⟩
  | .declaration =>
    ⟨(Parse.declaration r.peek.2).map .declaration,
      ((Parse.declaration_leaves _).weaken (by have := r.remaining_peek; omega)).map _⟩
  | .group =>
    have := Reader.remaining_skip_peek (r := r) fun e => by simp [Operand.ofToken_endOfFile e] at h
    (expression r.peek.2.skip).bind fun e r₁ h₁ =>
      ⟨(expectMark .rightParen r₁).map fun _ => e,
        ((expectMark_leaves _ _).weaken (by omega)).map _⟩
  | .block =>
    have := r.remaining_peek
    (block r.peek.2).bind fun e r₁ h₁ => ⟨.done (.block e) r₁, by simp; omega⟩
  | .none => ⟨.done .empty r.peek.2, by have := r.remaining_peek; simp; omega⟩
termination_by 4 * r.remaining + 1

def block (r : Reader) : Bounded 0 r.remaining Expression :=
  if h : r.get.1.kind = .mark .leftBrace then
    have := Reader.remaining_get_lt (r := r) (by simp [h])
    (expression r.get.2).bind fun e r₁ h₁ =>
      ⟨(expectMark .rightBrace r₁).map fun _ => e,
        ((expectMark_leaves _ _).weaken (by omega)).map _⟩
  else ⟨.refused ⟨.mark .leftBrace, r.get.1⟩ r.get.2, trivial⟩
termination_by 4 * r.remaining

end

end Bounded

namespace Parse

/-- Parse lines separated by semicolons. -/
def expression (r : Reader) : Outcome Expression := (Bounded.expression r).outcome

/-- Parse operands joined by binary operators. -/
def line (r : Reader) : Outcome Expression := (Bounded.line r).outcome

/-- Parse the rest of a line, given the operands read so far. -/
def chain (stack : List Waiting) (operand : Expression) (r : Reader) : Outcome Expression :=
  (Bounded.chain stack operand r).outcome

/-- Parse one operand. -/
def primary (r : Reader) : Outcome Expression := (Bounded.primary r).outcome

/-- Parse an expression in braces; the value is what stands between them. -/
def block (r : Reader) : Outcome Expression := (Bounded.block r).outcome

theorem expression_eq (r : Reader) :
    expression r = (line r).bind fun first r₁ =>
      if r₁.peek.1.kind = .mark .semicolon then
        (expression r₁.peek.2.skip).map (.sequence first)
      else .done first r₁.peek.2 := by
  rw [expression, Bounded.expression]
  refine Bounded.outcome_bind _ _ _ fun first r₁ h₁ => ?_
  split
  · exact Bounded.outcome_bind _ _ _ fun _ _ _ => rfl
  · rfl

theorem line_eq (r : Reader) :
    line r = (primary r).bind fun first r₁ => chain [] first r₁ := by
  rw [line, Bounded.line]
  exact Bounded.outcome_bind _ _ _ fun _ _ _ => rfl

theorem chain_eq (stack : List Waiting) (operand : Expression) (r : Reader) :
    chain stack operand r =
      let s := settle r.peek.1.kind.lookahead stack operand
      let seen := r.peek.2.noteAll s.decisions
      match r.peek.1.kind.lookahead with
      | .finish => .done s.operand seen
      | .operator op =>
        (primary seen.skip).bind fun e r₁ => chain (⟨s.operand, op⟩ :: s.stack) e r₁ := by
  rw [chain, Bounded.chain]
  dsimp only
  split <;> rename_i h <;> split <;> rename_i h' <;> simp only [h, Lookahead.operator.injEq,
    reduceCtorEq] at h'
  · rfl
  · subst h'
    exact Bounded.outcome_bind _ _ _ fun _ _ _ => rfl

theorem primary_eq (r : Reader) :
    primary r =
      match Operand.ofToken r.peek.1 with
      | .leaf e => .done e r.peek.2.skip
      | .declaration => (declaration r.peek.2).map .declaration
      | .group =>
        (expression r.peek.2.skip).bind fun e r₁ => (expectMark .rightParen r₁).map fun _ => e
      | .block => (block r.peek.2).map .block
      | .none => .done .empty r.peek.2 := by
  rw [primary, Bounded.primary]
  split <;> rename_i h <;> simp only [h]
  · exact Bounded.outcome_bind _ _ _ fun _ _ _ => rfl
  · exact Bounded.outcome_bind _ _ _ fun _ _ _ => rfl

theorem block_eq (r : Reader) :
    block r = (expectMark .leftBrace r).bind fun _ r₁ =>
      (expression r₁).bind fun e r₂ => (expectMark .rightBrace r₂).map fun _ => e := by
  rw [block, Bounded.block, expectMark]
  split
  · exact Bounded.outcome_bind _ _ _ fun _ _ _ => rfl
  · rfl

theorem expression_leaves (r : Reader) : (expression r).Leaves 0 r.remaining :=
  (Bounded.expression r).leaves

theorem block_leaves (r : Reader) : (block r).Leaves 0 r.remaining := (Bounded.block r).leaves

end Parse

end FrontEnd
