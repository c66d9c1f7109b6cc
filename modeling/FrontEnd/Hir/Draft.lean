import FrontEnd.Tree
import FrontEnd.Hir.Function

/-!
# Drafts of functions

* `Draft` — a function under construction, with the blocks that are open.  Declarations, lookups and
  instructions go to the innermost open block, and to the root block if none is open.
* Its operations: `addParameter`, `declareReturn`, `openBlock`, `append`, `closeBlock`, `declare`,
  `reference`, `literal`, `call`.
* `DraftOp` lists the operations as data; `Draft.perform` runs one of them.
-/

namespace FrontEnd

namespace Hir

/-- A block that was opened and not closed yet. -/
structure BlockFrame where
  value : ValueId
  scope : ScopeId
deriving DecidableEq, Repr

/-- A function under construction. -/
structure Draft where
  names : Names
  /-- the position that the function will have in its unit -/
  id : FunctionId
  function : Function
  /-- the open blocks, the innermost first -/
  blocks : List BlockFrame
deriving DecidableEq

namespace Draft

/-- The block at work. -/
def current (b : Draft) : BlockFrame :=
  match b.blocks with
  | [] => ⟨Function.rootBlock, Function.rootScope⟩
  | block :: _ => block

def addValue (b : Draft) (v : Value) : Ref × Draft :=
  (.slot b.function.values.size, { b with function := b.function.addValue v })

def declareReturn (b : Draft) (typeName : String) : Draft :=
  let type := b.names.freshType typeName
  { b with names := type.2, function := { b.function with returnType := some type.1 } }

/-- Add an argument.  Its variable belongs to the root scope, whatever block is open. -/
def addParameter (b : Draft) (a : Argument) : Ref × Draft :=
  let type := b.names.freshType a.typeName
  let name := type.2.intern a.name
  let value := b.function.values.size
  let f := b.function.addVariable Function.rootScope ⟨name.1, false, .declared⟩ (some type.1)
  (.slot value, { b with names := name.2, function := f.addParameter ⟨name.1, type.1, value⟩ })

def openBlock (b : Draft) : Draft :=
  let scope := b.function.scopes.size
  let value := b.function.values.size
  { b with
    function := (b.function.addScope b.current.scope).addValue (Value.emptyBlock scope)
    blocks := ⟨value, scope⟩ :: b.blocks }

/-- Put an instruction at the end of the current block. -/
def append (b : Draft) (instruction : Ref) : Draft :=
  { b with function := b.function.append b.current.value instruction }

/-- Close the current block and hand it out as a value.  The root block stays open. -/
def closeBlock (b : Draft) : Ref × Draft :=
  match b.blocks with
  | [] => (.slot Function.rootBlock, { b with names := b.names.note .rootBlockClosed })
  | block :: rest => (.slot block.value, { b with blocks := rest })

def declare (b : Draft) (d : VariableDecl) : Ref × Draft :=
  let type := b.names.freshType? d.typeName
  let name := type.2.intern d.name
  let f := b.function.addVariable b.current.scope ⟨name.1, d.isMutable, .declared⟩ type.1
  (.slot b.function.values.size, { b with names := name.2, function := f })

/-- The variable that a name means in the current block.  A name that no scope binds becomes a new
unresolved variable each time, and is registered. -/
def reference (b : Draft) (name : String) : Ref × Draft :=
  let s := b.names.intern name
  match b.function.lookup b.current.scope s.1 with
  | some v => (.slot v, { b with names := s.2 })
  | none =>
    let noted := s.2.note (.unresolvedVariable name)
    let names := noted.register (.var b.id b.function.values.size s.1)
    { b with names := names }.addValue ⟨.var ⟨s.1, false, .unresolved⟩, none⟩

def literal (b : Draft) (kind : LiteralKind) (text : String) : Ref × Draft :=
  b.addValue ⟨.literal kind text, none⟩

def call (b : Draft) (callee : Ref) (arguments : List Ref) : Ref × Draft :=
  b.addValue ⟨.call callee arguments, none⟩

def addParameters (b : Draft) (arguments : List Argument) : Draft :=
  arguments.foldl (fun b a => (b.addParameter a).2) b

end Draft

/-- An operation on a function under construction. -/
inductive DraftOp
  | openBlock
  | closeBlock
  | append (instruction : Ref)
  | declare (d : VariableDecl)
  | reference (name : String)
  | literal (kind : LiteralKind) (text : String)
  | call (callee : Ref) (arguments : List Ref)
  | addParameter (a : Argument)
  | declareReturn (typeName : String)
deriving DecidableEq, Repr

namespace Draft

/-- The outcome of an operation that hands out a value. -/
def handOut (v : Ref × Draft) : Option Ref × Draft := (some v.1, v.2)

/-- Run an operation.  Those that make or find a value hand it out. -/
def perform (b : Draft) : DraftOp → Option Ref × Draft
  | .openBlock => (none, b.openBlock)
  | .closeBlock => handOut b.closeBlock
  | .append v => (none, b.append v)
  | .declare d => handOut (b.declare d)
  | .reference name => handOut (b.reference name)
  | .literal kind text => handOut (b.literal kind text)
  | .call callee arguments => handOut (b.call callee arguments)
  | .addParameter a => handOut (b.addParameter a)
  | .declareReturn typeName => (none, b.declareReturn typeName)

end Draft

end Hir

end FrontEnd
