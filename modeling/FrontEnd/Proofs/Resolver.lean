import FrontEnd.Hir.Lowering

/-!
# Lexical scoping

The names in the body of a function, resolved on the tree alone.

* `Binder` — what a name may stand for: an argument, or the variable of a declaration.
* `Visit` — a declaration, or a use of a name with what it stands for.
* `Walk` — the open frames, the innermost first, and the visits so far.
* `Expression.walk` — the walk through an expression.  A block opens a frame, a declaration binds its
  name in the innermost one, and an operator is a use of `operatorCallee` behind its operands.
* `FunctionDecl.visits` — the visits of a function body, which starts with one frame for the arguments.
-/

namespace FrontEnd

/-- What a name stands for. -/
inductive Binder
  /-- the argument at this place in the list of arguments -/
  | argument (place : Nat)
  /-- the variable of the declaration that is the visit at this place -/
  | visit (place : Nat)
deriving DecidableEq, Repr

/-- A place in an expression at which a name is declared or used. -/
inductive Visit
  | declare (d : VariableDecl)
  /-- the name is used; without a binder nothing declares it -/
  | use (name : String) (binder : Option Binder)
deriving DecidableEq, Repr

/-- The names of one block with what they stand for, the latest first. -/
abbrev Frame := List (String × Binder)

/-- The state of a walk. -/
structure Walk where
  /-- the open frames, the innermost first -/
  frames : List Frame
  /-- the visits so far, in order -/
  visits : List Visit
deriving DecidableEq, Repr

namespace Walk

/-- What a name stands for in the innermost frame that has it. -/
def find? (w : Walk) (name : String) : Option Binder :=
  w.frames.findSome? fun frame => frame.lookup name

def use (w : Walk) (name : String) : Walk :=
  { w with visits := w.visits ++ [.use name (w.find? name)] }

def declare (w : Walk) (d : VariableDecl) : Walk where
  frames :=
    match w.frames with
    | [] => [[(d.name, .visit w.visits.length)]]
    | top :: rest => ((d.name, .visit w.visits.length) :: top) :: rest
  visits := w.visits ++ [.declare d]

def enter (w : Walk) : Walk := { w with frames := [] :: w.frames }

def leave (w : Walk) : Walk := { w with frames := w.frames.tail }

end Walk

/-- Walk through an expression.  Behind an assignment the right operand is visited first. -/
def Expression.walk : Expression → Walk → Walk
  | block inner, w => (inner.walk w.enter).leave
  | sequence first next, w => next.walk (first.walk w)
  | declaration d, w => w.declare d
  | binary op left right, w =>
    if op.isAssignment then (left.walk (right.walk w)).use operatorCallee
    else (right.walk (left.walk w)).use operatorCallee
  | identifier name, w => w.use name
  | number _, w => w
  | string _, w => w
  | char _, w => w
  | empty, w => w

/-- The frame of a list of arguments: of two equal names the later one counts. -/
def argumentFrame (arguments : List Argument) : Frame :=
  (arguments.mapIdx fun place a => (a.name, Binder.argument place)).reverse

/-- The visits of the body of a function. -/
def FunctionDecl.visits (d : FunctionDecl) : List Visit :=
  ((Expression.block d.body).walk ⟨[argumentFrame d.arguments], []⟩).visits

theorem argumentFrame_append (arguments : List Argument) (a : Argument) :
    argumentFrame (arguments ++ [a]) =
      (a.name, .argument arguments.length) :: argumentFrame arguments := by
  unfold argumentFrame
  rw [List.mapIdx_concat, List.reverse_append]
  rfl

/-- A declaration sees the outer variable of its name, and shadows it behind. -/
example :
    (Expression.walk (.sequence
        (.binary .assign (.declaration ⟨"x", none, false⟩) (.identifier "x"))
        (.identifier "x"))
      ⟨[[], argumentFrame [⟨"x", "int"⟩]], []⟩).visits =
      [.use "x" (some (.argument 0)), .declare ⟨"x", none, false⟩, .use "binary" none,
        .use "x" (some (.visit 1))] := by decide

end FrontEnd
