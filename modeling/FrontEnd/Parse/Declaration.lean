import FrontEnd.Parse.Expression

/-!
# Parsing declarations

* `Parse.argument`, `Parse.argumentList`, `Parse.arguments` — the arguments of a function.
* `Parse.function` — a function; like a module it takes its first token unseen.
* `Parse.item` — a module or a function, told apart by the keyword; every other token is refused
  and stays where it is.
* `Parse.module` — a module; `Parse.items` reads declarations up to a token of the given kind.
* `Parse.program` — declarations up to the end of the file.

A module holds items and an item may be a module, so these two and `Parse.items` are defined
together on bounded outcomes, each item using up at least one token; `item_eq`, `module_eq` and
`items_eq` say how each is made of the others.
-/

namespace FrontEnd

namespace Parse

/-- Parse `name: type`. -/
def argument (r : Reader) : Outcome Argument :=
  (expectName .argumentName r).bind fun name r₁ =>
    (expectMark .colon r₁).bind fun _ r₂ =>
      (expectName .argumentType r₂).map fun typeName => ⟨name, typeName⟩

theorem argument_leaves (r : Reader) : (argument r).Leaves 1 r.remaining :=
  (expectName_leaves _ _).bind fun _ _ _ => (expectMark_leaves _ _).bind fun _ _ _ =>
    ((expectName_leaves _ _).map _).weaken (by omega)

/-- Parse one or more arguments with commas between them, and the closing parenthesis. -/
def argumentList (r : Reader) : Outcome (List Argument) :=
  match _h : argument r with
  | .refused e r₁ => .refused e r₁
  | .done a r₁ =>
    match r₁.get.1.kind with
    | .mark .comma => (argumentList r₁.get.2).map (a :: ·)
    | .mark .rightParen => .done [a] r₁.get.2
    | _ => .refused ⟨.argumentEnd, r₁.get.1⟩ r₁.get.2
termination_by r.remaining
decreasing_by
  have := argument_leaves r
  have := r₁.remaining_get_le
  simp_all
  omega

theorem argumentList_eq (r : Reader) :
    argumentList r = (argument r).bind fun a r₁ =>
      match r₁.get.1.kind with
      | .mark .comma => (argumentList r₁.get.2).map (a :: ·)
      | .mark .rightParen => .done [a] r₁.get.2
      | _ => .refused ⟨.argumentEnd, r₁.get.1⟩ r₁.get.2 := by
  rw [argumentList]
  split <;> rename_i h <;> simp [h]

theorem argumentList_leaves (r : Reader) : (argumentList r).Leaves 0 r.remaining := by
  rw [argumentList_eq]
  refine (argument_leaves r).bind fun a r₁ h₁ => ?_
  have := r₁.remaining_get_le
  split
  · exact ((argumentList_leaves r₁.get.2).map _).weaken (by omega)
  · simp
    omega
  · trivial
termination_by r.remaining

/-- Parse the arguments of a function behind the opening parenthesis. -/
def arguments (r : Reader) : Outcome (List Argument) :=
  if r.peek.1.kind = .mark .rightParen then .done [] r.peek.2.skip
  else argumentList r.peek.2

theorem arguments_leaves (r : Reader) : (arguments r).Leaves 0 r.remaining := by
  unfold arguments
  split
  · exact r.remaining_skip_peek_le
  · exact (argumentList_leaves _).weaken (by have := r.remaining_peek; omega)

/-- Parse a function behind its first token, which is taken unseen. -/
def function (r : Reader) : Outcome FunctionDecl :=
  (expectName .functionName r.skip).bind fun name r₁ =>
    (expectMark .leftParen r₁).bind fun _ r₂ =>
      (arguments r₂).bind fun args r₃ =>
        (expectMark .arrow r₃).bind fun _ r₄ =>
          (expectName .returnType r₄).bind fun returnType r₅ =>
            (block r₅).map fun body => ⟨name, args, returnType, body⟩

theorem function_leaves (r : Reader) : (function r).Leaves 1 r.remaining := by
  have : r.skip.remaining ≤ r.remaining := r.remaining_get_le
  exact (expectName_leaves _ _).bind fun _ _ _ => (expectMark_leaves _ _).bind fun _ _ _ =>
    (arguments_leaves _).bind fun _ _ _ => (expectMark_leaves _ _).bind fun _ _ _ =>
      (expectName_leaves _ _).bind fun _ _ _ => ((block_leaves _).map _).weaken (by omega)

/-- The declaration that a token introduces. -/
inductive Introducer
  | module
  | function
  | none
deriving DecidableEq, Repr

/-- Modules and functions are introduced by their keywords. -/
def Introducer.ofToken (t : Token) : Introducer :=
  match t.keyword? with
  | some .kwModule => .module
  | some .kwFn => .function
  | _ => .none

end Parse

namespace Bounded

open Parse (Introducer)

mutual

def item (r : Reader) : Bounded 1 r.remaining Item :=
  match Introducer.ofToken r.peek.1 with
  | .module =>
    have := r.remaining_peek
    (module r.peek.2).bind fun m r₁ h₁ => ⟨.done (.module m.1 m.2) r₁, by simp; omega⟩
  | .function =>
    ⟨(Parse.function r.peek.2).map .function,
      ((Parse.function_leaves _).weaken (by have := r.remaining_peek; omega)).map _⟩
  | .none => ⟨.refused ⟨.topLevel, r.peek.1⟩ r.peek.2, trivial⟩
termination_by 3 * r.remaining + 1

def module (r : Reader) : Bounded 1 r.remaining (String × List Item) :=
  have := r.remaining_get_le
  Bounded.bind ⟨expectName .moduleName r.skip, expectName_leaves _ _⟩ fun name r₁ h₁ =>
    Bounded.bind ⟨expectMark .leftBrace r₁, expectMark_leaves _ _⟩ fun _ r₂ h₂ =>
      have : r₂.remaining < r.remaining := by
        have : r.skip.remaining ≤ r.remaining := r.remaining_get_le
        omega
      (items (.mark .rightBrace) r₂).bind fun is r₃ h₃ =>
        ⟨.done (name, is) r₃.skip, by
          have : r₃.skip.remaining ≤ r₃.remaining := r₃.remaining_get_le
          simp
          omega⟩
termination_by 3 * r.remaining

def items (stop : TokenKind) (r : Reader) : Bounded 0 r.remaining (List Item) :=
  if r.peek.1.kind = stop then ⟨.done [] r.peek.2, by have := r.remaining_peek; simpa⟩
  else
    have := r.remaining_peek
    (item r.peek.2).bind fun i r₁ h₁ =>
      (items stop r₁).bind fun is r₂ h₂ => ⟨.done (i :: is) r₂, by simp; omega⟩
termination_by 3 * r.remaining + 2

end

end Bounded

namespace Parse

def item (r : Reader) : Outcome Item := (Bounded.item r).outcome

/-- Parse a module behind its first token, which is taken unseen: its name and its declarations. -/
def module (r : Reader) : Outcome (String × List Item) := (Bounded.module r).outcome

/-- Parse declarations up to a token of the given kind, which is left for the caller. -/
def items (stop : TokenKind) (r : Reader) : Outcome (List Item) := (Bounded.items stop r).outcome

/-- Parse declarations up to the end of the file. -/
def program (r : Reader) : Outcome Program := items .endOfFile r

theorem item_eq (r : Reader) :
    item r =
      match Introducer.ofToken r.peek.1 with
      | .module => (module r.peek.2).map fun m => .module m.1 m.2
      | .function => (function r.peek.2).map .function
      | .none => .refused ⟨.topLevel, r.peek.1⟩ r.peek.2 := by
  rw [item, Bounded.item]
  split
  · exact Bounded.outcome_bind _ _ _ fun _ _ _ => rfl
  · rfl
  · rfl

theorem module_eq (r : Reader) :
    module r = (expectName .moduleName r.skip).bind fun name r₁ =>
      (expectMark .leftBrace r₁).bind fun _ r₂ =>
        (items (.mark .rightBrace) r₂).bind fun is r₃ => .done (name, is) r₃.skip := by
  rw [module, Bounded.module]
  exact Bounded.outcome_bind _ _ _ fun _ _ _ => Bounded.outcome_bind _ _ _ fun _ _ _ =>
    Bounded.outcome_bind _ _ _ fun _ _ _ => rfl

theorem items_eq (stop : TokenKind) (r : Reader) :
    items stop r =
      if r.peek.1.kind = stop then .done [] r.peek.2
      else (item r.peek.2).bind fun i r₁ => (items stop r₁).map (i :: ·) := by
  rw [items, Bounded.items]
  split
  · rfl
  · exact Bounded.outcome_bind _ _ _ fun _ _ _ => Bounded.outcome_bind _ _ _ fun _ _ _ => rfl

end Parse

end FrontEnd
