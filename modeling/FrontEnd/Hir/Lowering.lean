import FrontEnd.Hir.CompilationUnit

/-!
# Lowering syntax trees

* `Expression.lower` — the value of an expression, built in the current block.  The operands of an
  assignment are evaluated right to left, those of other operators left to right; the operator
  itself becomes a call of `operatorCallee`.
* `FunctionDecl.lower` — the types of the arguments are requested first, then the return type; the
  body becomes the one instruction of the root block.
* `Item.lower`, `Program.lower` — the declarations of a module, in order.
-/

namespace FrontEnd

open Hir

/-- The name that every binary operator calls. -/
def operatorCallee : String := "binary"

/-- A call for a binary operator, whatever the operator. -/
def Hir.Draft.callOperator (b : Draft) (left right : Ref) : Ref × Draft :=
  let callee := b.reference operatorCallee
  callee.2.call callee.1 [left, right]

/-- Build the value of an expression in the current block. -/
def Expression.lower : Expression → Draft → Ref × Draft
  | block inner, b =>
    let v := inner.lower b.openBlock
    (v.2.append v.1).closeBlock
  | sequence first next, b =>
    let v := first.lower b
    next.lower (v.2.append v.1)
  | declaration d, b => b.declare d
  | binary op left right, b =>
    if op.isAssignment then
      let r := right.lower b
      let l := left.lower r.2
      l.2.callOperator l.1 r.1
    else
      let l := left.lower b
      let r := right.lower l.2
      r.2.callOperator l.1 r.1
  | identifier name, b => b.reference name
  | number text, b => b.literal .int text
  | string text, b => b.literal .string text
  | char text, b => b.literal .char text
  | empty, b => (.unit, b)

/-- Build a declared function in a function that was just started. -/
def FunctionDecl.build (f : FunctionDecl) (b : Draft) : Draft :=
  let body :=
    (Expression.block f.body).lower ((b.addParameters f.arguments).declareReturn f.returnType)
  body.2.append body.1

/-- Add a declared function to a module. -/
def FunctionDecl.lower (f : FunctionDecl) (parent : ModuleId) (u : CompilationUnit) :
    CompilationUnit :=
  u.addFunction (f.build (u.startFunction parent f.name))

mutual

/-- Add a declaration to a module. -/
def Item.lower (parent : ModuleId) : Item → CompilationUnit → CompilationUnit
  | .module name items, u =>
    let m := u.addModule parent name
    lowerItems m.1 items m.2
  | .function f, u => f.lower parent u

def lowerItems (parent : ModuleId) : List Item → CompilationUnit → CompilationUnit
  | [], u => u
  | item :: rest, u => lowerItems parent rest (item.lower parent u)

end

/-- The unit of a program; its log goes on from the given one. -/
def Program.lower (p : Program) (log : Log) : CompilationUnit :=
  lowerItems CompilationUnit.root p (CompilationUnit.fresh log)

end FrontEnd
