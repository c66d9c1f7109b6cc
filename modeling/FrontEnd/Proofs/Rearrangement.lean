import FrontEnd.Hir.Workbench

/-!
# What may be rearranged in an expression

The statement before a semicolon is put into the block around the expression, in the middle of whatever
is evaluated there.  So it may be moved out of an operand, as long as it stays in front of all that is
evaluated behind it: out of the left operand of most operators, and out of the right operand of an
assignment.  Of the operator itself nothing is left but the order in which its operands are evaluated.

* `Expression.Rearranged` — the congruence that these moves generate.
* `lower_moveOutOfLeft`, `lower_moveOutOfRight`, `lower_exchange` — the moves, one by one.
* `Expression.Rearranged.lower_eq` — rearranged expressions are lowered to the same.
-/

namespace FrontEnd

open Hir

namespace Expression

/-- The least congruence in which semicolons associate, a statement may leave the operand that is
evaluated first, and operators may be exchanged that evaluate their operands in the same order. -/
inductive Rearranged : Expression → Expression → Prop
  | refl (e : Expression) : Rearranged e e
  | symm {e e' : Expression} (h : Rearranged e e') : Rearranged e' e
  | trans {e e' e'' : Expression} (h : Rearranged e e') (h' : Rearranged e' e'') : Rearranged e e''
  | block {inner inner' : Expression} (h : Rearranged inner inner') :
    Rearranged (.block inner) (.block inner')
  | sequence {first first' next next' : Expression} (h : Rearranged first first')
    (h' : Rearranged next next') : Rearranged (.sequence first next) (.sequence first' next')
  | binary (op : BinaryOperator) {left left' right right' : Expression} (h : Rearranged left left')
    (h' : Rearranged right right') : Rearranged (.binary op left right) (.binary op left' right')
  | associate (a b c : Expression) :
    Rearranged (.sequence (.sequence a b) c) (.sequence a (.sequence b c))
  | moveOutOfLeft {op : BinaryOperator} (hop : op.isAssignment = false) (a b c : Expression) :
    Rearranged (.binary op (.sequence a b) c) (.sequence a (.binary op b c))
  | moveOutOfRight {op : BinaryOperator} (hop : op.isAssignment = true) (a b c : Expression) :
    Rearranged (.binary op c (.sequence a b)) (.sequence a (.binary op c b))
  | exchange {op op' : BinaryOperator} (hop : op.isAssignment = op'.isAssignment)
    (left right : Expression) : Rearranged (.binary op left right) (.binary op' left right)

variable {op op' : BinaryOperator}

/-- A left operand that is evaluated first may be preceded by its statement. -/
theorem lower_moveOutOfLeft (hop : op.isAssignment = false) (a b c : Expression) (d : Draft) :
    (binary op (sequence a b) c).lower d = (sequence a (binary op b c)).lower d := by
  simp [lower, hop]

theorem lower_moveOutOfRight (hop : op.isAssignment = true) (a b c : Expression) (d : Draft) :
    (binary op c (sequence a b)).lower d = (sequence a (binary op c b)).lower d := by
  simp [lower, hop]

/-- An operator leaves no trace but the order of its operands. -/
theorem lower_exchange (hop : op.isAssignment = op'.isAssignment) (left right : Expression)
    (d : Draft) : (binary op left right).lower d = (binary op' left right).lower d := by
  simp [lower, hop]

theorem lower_binary_congr {left left' right right' : Expression}
    (h : ∀ d, left.lower d = left'.lower d) (h' : ∀ d, right.lower d = right'.lower d)
    (op : BinaryOperator) (d : Draft) :
    (binary op left right).lower d = (binary op left' right').lower d := by
  cases hop : op.isAssignment <;> simp [lower, hop, h, h']

/-- In every draft rearranged expressions are lowered to the same value and leave the same draft. -/
theorem Rearranged.lower_draft {e e' : Expression} (h : e.Rearranged e') (d : Draft) :
    e.lower d = e'.lower d := by
  induction h generalizing d with
  | refl e => rfl
  | symm h ih => exact (ih d).symm
  | trans h h' ih ih' => exact (ih d).trans (ih' d)
  | block h ih => simp [lower, ih]
  | sequence h h' ih ih' => simp [lower, ih, ih']
  | binary op h h' ih ih' => exact lower_binary_congr ih ih' op d
  | associate a b c => rfl
  | moveOutOfLeft hop a b c => exact lower_moveOutOfLeft hop a b c d
  | moveOutOfRight hop a b c => exact lower_moveOutOfRight hop a b c d
  | exchange hop left right => exact lower_exchange hop left right d

/-- **Rearranged expressions are lowered to the same.**  In every function under construction they hand
out the same value and leave the same function with the same open blocks.  So at every workbench the
reply, the unit and all that is entered are the same for both, and so are the units of two functions
that differ in such bodies alone. -/
theorem Rearranged.lower_eq {e e' : Expression} (h : e.Rearranged e') :
    (∀ d : Draft, e.lower d = e'.lower d) ∧
    (∀ w : Workbench, w.perform (.lowerExpression e) = w.perform (.lowerExpression e')) ∧
    ∀ (f f' : FunctionDecl) (parent : ModuleId) (u : CompilationUnit), f.body = e →
      f' = { f with body := e' } → f.lower parent u = f'.lower parent u := by
  refine ⟨h.lower_draft, fun w => ?_, ?_⟩
  · obtain ⟨u, ms, function⟩ := w
    cases function with
    | none => cases ms <;> rfl
    | some d => simp [Workbench.perform, Workbench.performInFunction, h.lower_draft]
  · rintro f f' parent u rfl rfl
    simp [FunctionDecl.lower, FunctionDecl.build, h.block.lower_draft]

/-- `a = (let x; x)` and `let x; (a += x)` in an empty function: the declared variable is the value 1 and
the statement of the root block, and the call is the value 4 behind the two open names. -/
theorem Rearranged.lower_eq_declaredOnTheRight :
    let e : Expression :=
      .binary .assign (.identifier "a") (.sequence (.declaration ⟨"x", none, false⟩) (.identifier "x"))
    let e' : Expression :=
      .sequence (.declaration ⟨"x", none, false⟩) (.binary .plusAssign (.identifier "a") (.identifier "x"))
    let d := (CompilationUnit.fresh #[]).startFunction CompilationUnit.root "f"
    Rearranged e e' ∧ e.lower d = e'.lower d ∧ (e.lower d).1 = .slot 4 ∧
      (e'.lower d).2.function.values[0]? = some ⟨.block 0 #[.slot 1], none⟩ ∧
      (e'.lower d).2.function.values[4]? = some ⟨.call (.slot 3) [.slot 2, .slot 1], none⟩ := by
  intro e e' d
  have moved : Rearranged e (.sequence (.declaration ⟨"x", none, false⟩)
      (.binary .assign (.identifier "a") (.identifier "x"))) := .moveOutOfRight rfl _ _ _
  have exchanged : Rearranged (.binary .assign (.identifier "a") (.identifier "x"))
      (.binary .plusAssign (.identifier "a") (.identifier "x")) :=
    .exchange (by decide) _ _
  have rearranged : Rearranged e e' := moved.trans (.sequence (.refl _) exchanged)
  obtain ⟨lowered, -, -⟩ := Rearranged.lower_eq rearranged
  exact ⟨rearranged, lowered d, by decide +kernel, by decide +kernel, by decide +kernel⟩

/-- Out of the operand that is evaluated last no statement may be moved. -/
example :
    let d := (CompilationUnit.fresh #[]).startFunction CompilationUnit.root "f"
    ((binary .assign (sequence (identifier "a") (identifier "b")) (identifier "c")).lower d).2 ≠
      ((sequence (identifier "a") (binary .assign (identifier "b") (identifier "c"))).lower d).2 := by
  decide +kernel

end Expression

end FrontEnd
