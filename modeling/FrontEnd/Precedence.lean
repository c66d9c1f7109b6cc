/-!
# Binary operators and the precedence decision

* `BinaryOperator` — the thirty infix operators, arithmetic, shifts, comparisons, logic and the
  assignment forms.
* `BinaryOperator.strength` — how tightly an operator binds; a larger number binds tighter.  The
  assignment forms share the lowest strength, and they alone group to the right.
* `Action.next` — what an operator-precedence parser does next, given the operator on top of its
  stack and the operator that comes next in the input: shift the incoming one, reduce the top one,
  or accept the finished operand.
-/

namespace FrontEnd

/-- An infix operator. -/
inductive BinaryOperator
  | plus
  | minus
  | times
  | divide
  | modulo
  | plusAssign
  | minusAssign
  | timesAssign
  | divideAssign
  | moduloAssign
  | less
  | greater
  | lessEqual
  | greaterEqual
  | equal
  | notEqual
  | define
  | assign
  | logicalAnd
  | logicalOr
  | bitAnd
  | bitOr
  | bitXor
  | bitAndAssign
  | bitOrAssign
  | bitXorAssign
  | shiftLeft
  | shiftRight
  | shiftLeftAssign
  | shiftRightAssign
deriving DecidableEq, Repr

namespace BinaryOperator

def all : List BinaryOperator :=
  [plus, minus, times, divide, modulo, plusAssign, minusAssign, timesAssign, divideAssign,
    moduloAssign, less, greater, lessEqual, greaterEqual, equal, notEqual, define, assign,
    logicalAnd, logicalOr, bitAnd, bitOr, bitXor, bitAndAssign, bitOrAssign, bitXorAssign,
    shiftLeft, shiftRight, shiftLeftAssign, shiftRightAssign]

def text : BinaryOperator → String
  | plus => "+"
  | minus => "-"
  | times => "*"
  | divide => "/"
  | modulo => "%"
  | plusAssign => "+="
  | minusAssign => "-="
  | timesAssign => "*="
  | divideAssign => "/="
  | moduloAssign => "%="
  | less => "<"
  | greater => ">"
  | lessEqual => "<="
  | greaterEqual => ">="
  | equal => "=="
  | notEqual => "!="
  | define => ":="
  | assign => "="
  | logicalAnd => "&&"
  | logicalOr => "||"
  | bitAnd => "&"
  | bitOr => "|"
  | bitXor => "^"
  | bitAndAssign => "&="
  | bitOrAssign => "|="
  | bitXorAssign => "^="
  | shiftLeft => "<<"
  | shiftRight => ">>"
  | shiftLeftAssign => "<<="
  | shiftRightAssign => ">>="

/-- The strength shared by all assignment forms, the lowest of all operators. -/
def assignmentStrength : Nat := 1

/-- How tightly the operator binds. -/
def strength : BinaryOperator → Nat
  | times | divide | modulo => 11
  | plus | minus => 10
  | shiftLeft | shiftRight => 9
  | less | greater | lessEqual | greaterEqual => 8
  | equal | notEqual => 7
  | bitAnd => 6
  | bitXor => 5
  | bitOr => 4
  | logicalAnd => 3
  | logicalOr => 2
  | plusAssign | minusAssign | timesAssign | divideAssign | moduloAssign | bitAndAssign
  | bitOrAssign | bitXorAssign | shiftLeftAssign | shiftRightAssign | define | assign =>
    assignmentStrength

/-- The operators that store into their left operand: they group to the right, and their right
operand is evaluated first. -/
def isAssignment (op : BinaryOperator) : Bool := op.strength == assignmentStrength

theorem mem_all (op : BinaryOperator) : op ∈ all := by cases op <;> decide

theorem strength_pos (op : BinaryOperator) : 0 < op.strength := by cases op <;> decide

theorem isAssignment_iff (op : BinaryOperator) :
    op.isAssignment = true ↔ op.strength = assignmentStrength := by
  simp [isAssignment]

end BinaryOperator

/-- The top of an operator stack: its floor, or an operator that waits for its right operand. -/
inductive StackTop
  | start
  | operator (op : BinaryOperator)
deriving DecidableEq, Repr

/-- The floor lies below every operator. -/
def StackTop.strength : StackTop → Nat
  | .start => 0
  | .operator op => op.strength

/-- What comes next in the input: an operator, or something that ends the chain of operands. -/
inductive Lookahead
  | finish
  | operator (op : BinaryOperator)
deriving DecidableEq, Repr

/-- A step of the precedence parser. -/
inductive Action
  /-- take the incoming operator and read its right operand -/
  | shift (op : BinaryOperator)
  /-- join the two topmost operands with the topmost operator -/
  | reduce
  /-- the chain is complete -/
  | accept
deriving DecidableEq, Repr

/-- Between two assignment forms the incoming one is shifted, so that they group to the right;
otherwise the operator on the stack wins ties, so that the others group to the left. -/
def Action.next : StackTop → Lookahead → Action
  | .start, .finish => .accept
  | .operator _, .finish => .reduce
  | top, .operator op =>
    if top.strength = BinaryOperator.assignmentStrength ∧ op.isAssignment then .shift op
    else if op.strength ≤ top.strength then .reduce
    else .shift op

/-- On the floor of the stack every operator is shifted. -/
theorem Action.next_start_operator (op : BinaryOperator) :
    Action.next .start (.operator op) = .shift op := by
  cases op <;> rfl

/-- Behind an operator, the end of the chain always reduces. -/
theorem Action.next_operator_finish (op : BinaryOperator) :
    Action.next (.operator op) .finish = .reduce := rfl

end FrontEnd
