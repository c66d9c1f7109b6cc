import FrontEnd.Diagnostic

/-!
# Events

What the front end reports about its own work, step by step.

* `Event` — one report; `Event.level` is its importance and `Event.title` its fixed wording.
* `StackTop.display`, `Lookahead.display`, `Action.display` — the parts of a precedence decision as
  they are reported.
-/

namespace FrontEnd

/-- How important a report is. -/
inductive Level
  | trace
  | debug
  | warn
deriving DecidableEq, Repr

def Level.name : Level → String
  | trace => "TRACE"
  | debug => "DEBUG"
  | warn => "WARN"

/-- A report about one step of the work. -/
inductive Event
  /-- a token was taken from the source -/
  | scanned (token : Token)
  /-- the precedence parser decided what to do next -/
  | decided (top : StackTop) (incoming : Lookahead) (action : Action)
  /-- a parse ended in a syntax error whose diagnostic was written -/
  | aborted (error : Mismatch)
  /-- a source was parsed into this number of declarations -/
  | parsed (items : Nat)
  /-- a unit was built: its functions, and the names left open -/
  | lowered (functions unresolved : Nat)
  | createdModule (name : String)
  | createdFunction (name : String)
  /-- no scope binds the name that was looked up -/
  | unresolvedVariable (name : String)
  /-- a block was closed while only the root block was open -/
  | rootBlockClosed
deriving DecidableEq, Repr

namespace Event

def level : Event → Level
  | scanned _ | decided _ _ _ => .trace
  | aborted _ | parsed _ | lowered _ _ | createdModule _ | createdFunction _
  | unresolvedVariable _ => .debug
  | rootBlockClosed => .warn

def title : Event → String
  | scanned _ => "scanned"
  | decided _ _ _ => "operator precedence"
  | aborted _ => "parse aborted"
  | parsed _ => "parsed"
  | lowered _ _ => "lowered to HIR"
  | createdModule _ => "create module"
  | createdFunction _ => "create function"
  | unresolvedVariable _ => "unresolved variable"
  | rootBlockClosed => "exit_block called on the root block"

end Event

/-- The top of a stack as it is reported. -/
def StackTop.display : StackTop → String
  | start => "Start"
  | operator op => "Binary(" ++ op.text ++ ")"

/-- A lookahead as it is reported. -/
def Lookahead.display : Lookahead → String
  | finish => "End"
  | operator op => "Binary(" ++ op.text ++ ")"

/-- An action as it is reported. -/
def Action.display : Action → String
  | shift op => "Shift(" ++ op.text ++ ")"
  | reduce => "Reduce"
  | accept => "Accept"

/-- The reports of a run, in order. -/
abbrev Log := Array Event

end FrontEnd
