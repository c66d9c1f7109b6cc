import FrontEnd.Session
import FrontEnd.Hir.Lowering

/-!
# The workbench

A unit can be built by hand, one operation at a time.  The workbench stands on one of three levels:
at the unit, in a module, or in a function; it goes inwards by entering and outwards by leaving.

* `Workbench` — the unit and the modules and the function that are entered.
* `Command` — an operation on one of the levels; `Workbench.perform` runs it.  A command that does
  not belong to the level at which the workbench stands changes nothing.
* `Workbench.lowerSource` — parse a piece of source and lower it where the workbench stands.
* `Workbench.view` — the unit as it is, the function under construction included.
-/

namespace FrontEnd

namespace Hir

/-- A unit under construction. -/
structure Workbench where
  unit : CompilationUnit
  /-- the modules that are entered, the innermost first -/
  modules : List ModuleId
  /-- the function that is entered -/
  function : Option Draft
deriving DecidableEq

inductive Command
  /-- go out by one level -/
  | leave
  /-- at the unit: enter the root module -/
  | enterRoot
  /-- at the unit: request a type -/
  | freshType (name : String)
  /-- at the unit: intern a name -/
  | intern (name : String)
  /-- at the unit: register a name, unchecked -/
  | register (entry : OpenName)
  /-- in a module: make a module and enter it -/
  | enterModule (name : String)
  /-- in a module: start a function and enter it -/
  | enterFunction (name : String)
  /-- in a module: declare a struct -/
  | addStruct (name : String)
  /-- in a module: declare a class -/
  | addClass (name : String)
  /-- in a module: lower declarations -/
  | lowerItems (items : List Item)
  /-- in a function: one operation on the draft -/
  | build (op : DraftOp)
  /-- in a function: add arguments -/
  | addParameters (arguments : List Argument)
  /-- in a function: lower an expression -/
  | lowerExpression (e : Expression)
deriving DecidableEq, Repr

inductive Reply
  | entered (index : Nat)
  | index (n : Nat)
  | value (v : Ref)
  | silent
deriving DecidableEq, Repr

namespace Workbench

def fresh (log : Log) : Workbench := ⟨CompilationUnit.fresh log, [], none⟩

/-- The names of the unit at present. -/
def names (w : Workbench) : Names :=
  match w.function with
  | some b => b.names
  | none => w.unit.names

/-- The unit at present. -/
def view (w : Workbench) : CompilationUnit :=
  match w.function with
  | some b => w.unit.addFunction b
  | none => w.unit

/-- Go out by one level.  A function is added to the unit when it is left. -/
def leave (w : Workbench) : Workbench :=
  match w.function with
  | some _ => { w with unit := w.view, function := none }
  | none => { w with modules := w.modules.tail }

def performInUnit (w : Workbench) : Command → Reply × Workbench
  | .enterRoot => (.entered CompilationUnit.root, { w with modules := [CompilationUnit.root] })
  | .freshType name =>
    let id := w.unit.names.freshType name
    (.index id.1, { w with unit := { w.unit with names := id.2 } })
  | .intern name =>
    let s := w.unit.names.intern name
    (.index s.1, { w with unit := { w.unit with names := s.2 } })
  | .register entry =>
    (.silent, { w with unit := { w.unit with names := w.unit.names.register entry } })
  | _ => (.silent, w)

def performInModule (w : Workbench) (m : ModuleId) : Command → Reply × Workbench
  | .enterModule name =>
    let id := w.unit.addModule m name
    (.entered id.1, { w with unit := id.2, modules := id.1 :: w.modules })
  | .enterFunction name =>
    let b := w.unit.startFunction m name
    (.entered b.id, { w with function := some b })
  | .addStruct name =>
    let id := w.unit.addStruct m name
    (.index id.1, { w with unit := id.2 })
  | .addClass name =>
    let id := w.unit.addClass m name
    (.index id.1, { w with unit := id.2 })
  | .lowerItems items => (.silent, { w with unit := FrontEnd.lowerItems m items w.unit })
  | _ => (.silent, w)

def performInFunction (w : Workbench) (b : Draft) : Command → Reply × Workbench
  | .build op =>
    match b.perform op with
    | (some v, b') => (.value v, { w with function := some b' })
    | (none, b') => (.silent, { w with function := some b' })
  | .addParameters arguments => (.silent, { w with function := some (b.addParameters arguments) })
  | .lowerExpression e =>
    let v := e.lower b
    (.value v.1, { w with function := some v.2 })
  | _ => (.silent, w)

def perform (w : Workbench) (c : Command) : Reply × Workbench :=
  match c, w.function, w.modules with
  | .leave, _, _ => (.silent, w.leave)
  | c, some b, _ => w.performInFunction b c
  | c, none, m :: _ => w.performInModule m c
  | c, none, [] => w.performInUnit c

def performAll (w : Workbench) : List Command → List Reply × Workbench
  | [] => ([], w)
  | c :: cs =>
    let reply := w.perform c
    let replies := reply.2.performAll cs
    (reply.1 :: replies.1, replies.2)

def setLog (w : Workbench) (log : Log) : Workbench :=
  match w.function with
  | some b => { w with function := some { b with names := { b.names with log := log } } }
  | none => { w with unit := { w.unit with names := { w.unit.names with log := log } } }

/-- Parse a source and go on with the tree: in a function it is read as an expression, what follows
the expression left aside, and elsewhere as declarations. -/
def lowerSource (w : Workbench) (source : String) (sink : Sink) :
    Except ParseFailure Reply × Workbench :=
  let session := Session.start source sink w.names.log
  match w.function with
  | some _ =>
    match session.run Parse.expression with
    | (.ok e, s) =>
      let reply := (w.setLog s.log).perform (.lowerExpression e)
      (.ok reply.1, reply.2)
    | (.error e, s) => (.error e, w.setLog s.log)
  | none =>
    match session.run Parse.program with
    | (.ok p, s) =>
      let reply := (w.setLog s.log).perform (.lowerItems p)
      (.ok reply.1, reply.2)
    | (.error e, s) => (.error e, w.setLog s.log)

end Workbench

end Hir

end FrontEnd
