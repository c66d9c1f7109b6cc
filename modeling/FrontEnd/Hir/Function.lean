import FrontEnd.Hir.Bindings
import FrontEnd.Hir.Names

/-!
# Functions

A function owns its scopes and its values and refers to them by position.

* `Ref` — a reference to a value: the unit value, which is not stored, or a stored one.
* `Value` — a variable, a literal, a call or a block, with the type it is bound to, if any.
* `Scope` — the names declared in one block.  A scope knows the scopes around it, so its parent, its
  depth and the chain on which a name is looked up are all read off one list.
* `Function` — scopes and values, the arguments and the return type.  Scope 0 is the root scope and
  value 0 its block.
* `Function.lookup` — the variable that a name means in a scope: the innermost binding.
-/

namespace FrontEnd

namespace Hir

/-- A reference to a value of a function. -/
inductive Ref
  /-- the unit value, the same everywhere -/
  | unit
  | slot (id : ValueId)
deriving DecidableEq, Repr

inductive LiteralKind
  | string
  | char
  | int
  | float
deriving DecidableEq, Repr

/-- Whether a variable was declared, or looked up in vain. -/
inductive Resolution
  | declared
  | unresolved
deriving DecidableEq, Repr

/-- A variable of a function. -/
structure Variable where
  name : Symbol
  isMutable : Bool
  resolution : Resolution
deriving DecidableEq, Repr

/-- What a value is. -/
inductive Content
  | var (v : Variable)
  | literal (kind : LiteralKind) (text : String)
  | call (callee : Ref) (arguments : List Ref)
  /-- the block of a scope, with its instructions in order -/
  | block (scope : ScopeId) (instructions : Array Ref)
  | unit
deriving DecidableEq, Repr

/-- A value and the type it is bound to; without one its type is open. -/
structure Value where
  kind : Content
  type : Option TypeId
deriving DecidableEq, Repr

namespace Value

def unit : Value := ⟨.unit, none⟩

def emptyBlock (scope : ScopeId) : Value := ⟨.block scope #[], none⟩

/-- Whether the value is not bound to a type. -/
def isOpen (v : Value) : Bool := v.type.isNone

def asVariable? (v : Value) : Option Variable :=
  match v.kind with
  | .var x => some x
  | _ => none

/-- The instructions of the block that the value is. -/
def instructions? (v : Value) : Option (Array Ref) :=
  match v.kind with
  | .block _ instructions => some instructions
  | _ => none

/-- Put an instruction at the end of a block; other values stay as they are. -/
def append (v : Value) (instruction : Ref) : Value :=
  match v.kind with
  | .block scope instructions => { v with kind := .block scope (instructions.push instruction) }
  | _ => v

end Value

/-- The declarations of one block. -/
structure Scope where
  /-- the scopes around this one, the nearest first -/
  enclosing : List ScopeId
  /-- the scopes directly inside this one, in order of creation -/
  children : Array ScopeId
  /-- the variables declared here, in order -/
  declared : Array ValueId
  /-- what each name declared here means at present -/
  bindings : Bindings
deriving DecidableEq, Repr

namespace Scope

/-- A scope in which nothing is declared yet. -/
def fresh (enclosing : List ScopeId) : Scope := ⟨enclosing, #[], #[], Bindings.empty⟩

/-- The scope directly around this one. -/
def parent (s : Scope) : Option ScopeId := s.enclosing.head?

/-- How many scopes lie around this one. -/
def depth (s : Scope) : Nat := s.enclosing.length

def isRoot (s : Scope) : Bool := s.parent.isNone

/-- Declare a variable; it replaces an older one of the same name. -/
def declare (s : Scope) (name : Symbol) (value : ValueId) : Scope :=
  { s with declared := s.declared.push value, bindings := s.bindings.insert name value }

end Scope

/-- An argument: its name, its type, and the variable that stands for it in the body. -/
structure Parameter where
  name : Symbol
  type : TypeId
  value : ValueId
deriving DecidableEq, Repr

structure Function where
  name : Symbol
  parent : ModuleId
  parameters : Array Parameter
  returnType : Option TypeId
  scopes : Array Scope
  values : Array Value
deriving DecidableEq, Repr

namespace Function

/-- The scope of the arguments, around all others. -/
def rootScope : ScopeId := 0

def rootBlock : ValueId := 0

/-- A function without arguments and with an empty root block. -/
def fresh (name : Symbol) (parent : ModuleId) : Function :=
  ⟨name, parent, #[], none, #[Scope.fresh []], #[Value.emptyBlock rootScope]⟩

/-- A scope and the scopes around it, the innermost first. -/
def chain (f : Function) (s : ScopeId) : List ScopeId :=
  match f.scopes[s]? with
  | some scope => s :: scope.enclosing
  | none => []

/-- The variable that a name is bound to in one scope, scopes around it left aside. -/
def bound? (f : Function) (name : Symbol) (s : ScopeId) : Option ValueId :=
  f.scopes[s]?.bind fun scope => scope.bindings.find? name

/-- The variable that a name means in a scope: the innermost binding on its chain. -/
def lookup (f : Function) (s : ScopeId) (name : Symbol) : Option ValueId :=
  (f.chain s).findSome? (f.bound? name)

/-- The value behind a reference; there is none if the reference leads out of the function. -/
def value? (f : Function) : Ref → Option Value
  | .unit => some Value.unit
  | .slot id => f.values[id]?

/-- The instructions of the root block. -/
def body (f : Function) : Array Ref :=
  ((f.values[rootBlock]?).bind Value.instructions?).getD #[]

def addValue (f : Function) (v : Value) : Function := { f with values := f.values.push v }

/-- Make a scope inside another one. -/
def addScope (f : Function) (parent : ScopeId) : Function :=
  { f with
    scopes := (f.scopes.modify parent fun s =>
      { s with children := s.children.push f.scopes.size }).push (Scope.fresh (f.chain parent)) }

/-- Store a variable and declare it in a scope. -/
def addVariable (f : Function) (s : ScopeId) (v : Variable) (type : Option TypeId) : Function :=
  { f with
    values := f.values.push ⟨.var v, type⟩
    scopes := f.scopes.modify s fun scope => scope.declare v.name f.values.size }

def addParameter (f : Function) (p : Parameter) : Function :=
  { f with parameters := f.parameters.push p }

/-- Put an instruction at the end of a block. -/
def append (f : Function) (block : ValueId) (instruction : Ref) : Function :=
  { f with values := f.values.modify block fun v => v.append instruction }

end Function

end Hir

end FrontEnd
