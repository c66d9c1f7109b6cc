import FrontEnd.Tree
import FrontEnd.Event

/-!
# Chains of operands

An operator-precedence parser holds a stack of operands that wait for their right neighbour, each
with the operator behind it, and the operand it has read last.

* `Waiting` — an operand with the operator behind it.
* `settle` — reduce the stack as long as the incoming operator, or the end of the chain, asks for
  it.  What is left is ready for the incoming operator.
* `Settled.decisions` — the decisions taken on the way, the last of which is no reduction.
-/

namespace FrontEnd

/-- An operand and the operator behind it, whose right operand is still to come. -/
structure Waiting where
  left : Expression
  op : BinaryOperator
deriving DecidableEq, Repr

/-- The operator on top of a stack of waiting operands. -/
def stackTop : List Waiting → StackTop
  | [] => .start
  | w :: _ => .operator w.op

/-- A stack that needs no more reduction, the operand behind it, and the decisions taken. -/
structure Settled where
  stack : List Waiting
  operand : Expression
  decisions : List Event
deriving DecidableEq, Repr

/-- The decision at the given stack, as it is reported. -/
def decision (stack : List Waiting) (incoming : Lookahead) : Event :=
  .decided (stackTop stack) incoming (Action.next (stackTop stack) incoming)

/-- Reduce as long as the decision at the top of the stack is to reduce. -/
def settle (incoming : Lookahead) : List Waiting → Expression → Settled
  | [], operand => ⟨[], operand, [decision [] incoming]⟩
  | w :: stack, operand =>
    if Action.next (.operator w.op) incoming = .reduce then
      let s := settle incoming stack (.binary w.op w.left operand)
      { s with decisions := decision (w :: stack) incoming :: s.decisions }
    else ⟨w :: stack, operand, [decision (w :: stack) incoming]⟩

end FrontEnd
