import FrontEnd.Hir.Draft

/-!
# Compilation units

The high-level representation (HIR) of one source: what its declarations are, free of the way in
which they were written.

* `Module` — a container of named declarations.  Making a declaration under a name that is taken
  binds the name anew; the older declaration keeps its place in the unit.
* `CompilationUnit` — all modules, functions, structs and classes of one compilation, and the names
  that they share.  Module 0 is the root module.
* `addModule`, `addStruct`, `addClass` — add a declaration to a module.
* `startFunction`, `addFunction` — a function is built as a draft, between these two.
-/

namespace FrontEnd

namespace Hir

/-- A container of declarations. -/
structure Module where
  name : Symbol
  parent : Option ModuleId
  modules : Bindings
  functions : Bindings
  structs : Bindings
  classes : Bindings
deriving DecidableEq, Repr

def Module.fresh (name : Symbol) (parent : Option ModuleId) : Module :=
  ⟨name, parent, Bindings.empty, Bindings.empty, Bindings.empty, Bindings.empty⟩

/-- A declaration of which only the name is known: a struct or a class. -/
structure Declared where
  name : Symbol
  parent : ModuleId
deriving DecidableEq, Repr

/-- All that one compilation makes. -/
structure CompilationUnit where
  names : Names
  modules : Array Module
  functions : Array Function
  structs : Array Declared
  classes : Array Declared
deriving DecidableEq

namespace CompilationUnit

/-- The module that holds all others. -/
def root : ModuleId := 0

/-- A unit with nothing but an empty root module. -/
def fresh (log : Log) : CompilationUnit :=
  let name := (Names.empty log).intern "root"
  ⟨name.2, #[Module.fresh name.1 none], #[], #[], #[]⟩

def addModule (u : CompilationUnit) (parent : ModuleId) (name : String) :
    ModuleId × CompilationUnit :=
  let s := (u.names.note (.createdModule name)).intern name
  let id := u.modules.size
  (id,
    { u with
      names := s.2
      modules := (u.modules.modify parent fun m =>
        { m with modules := m.modules.insert s.1 id }).push (Module.fresh s.1 (some parent)) })

def addStruct (u : CompilationUnit) (parent : ModuleId) (name : String) :
    Nat × CompilationUnit :=
  let s := u.names.intern name
  let id := u.structs.size
  (id,
    { u with
      names := s.2
      modules := u.modules.modify parent fun m => { m with structs := m.structs.insert s.1 id }
      structs := u.structs.push ⟨s.1, parent⟩ })

def addClass (u : CompilationUnit) (parent : ModuleId) (name : String) :
    Nat × CompilationUnit :=
  let s := u.names.intern name
  let id := u.classes.size
  (id,
    { u with
      names := s.2
      modules := u.modules.modify parent fun m => { m with classes := m.classes.insert s.1 id }
      classes := u.classes.push ⟨s.1, parent⟩ })

/-- Start a function that will belong to a module. -/
def startFunction (u : CompilationUnit) (parent : ModuleId) (name : String) : Draft :=
  let s := (u.names.note (.createdFunction name)).intern name
  ⟨s.2, u.functions.size, Function.fresh s.1 parent, []⟩

/-- Add a function, as far as it is built, to the unit in which it was started. -/
def addFunction (u : CompilationUnit) (b : Draft) : CompilationUnit :=
  { u with
    names := b.names
    modules := u.modules.modify b.function.parent fun m =>
      { m with functions := m.functions.insert b.function.name b.id }
    functions := u.functions.push b.function }

def note (u : CompilationUnit) (e : Event) : CompilationUnit := { u with names := u.names.note e }

end CompilationUnit

end Hir

end FrontEnd
