import FrontEnd.Event
import FrontEnd.Hir.SymbolTable

/-!
# The names of a unit

What all functions and modules of a unit share.

* `OpenName` — a name that the unit uses but does not define: a variable of some function, or
  a type.
* `Names` — the symbols, the requested types, the register of unresolved names, and the log.
* `Names.intern`, `Names.freshType`, `Names.register` — how these grow; nothing is ever removed.
-/

namespace FrontEnd

namespace Hir

/-- The position of a module in its unit. -/
abbrev ModuleId := Nat

/-- The position of a function in its unit. -/
abbrev FunctionId := Nat

/-- The position of a requested type in its unit. -/
abbrev TypeId := Nat

/-- The position of a scope in its function. -/
abbrev ScopeId := Nat

/-- The position of a value in its function. -/
abbrev ValueId := Nat

/-- A name left open for a later stage. -/
inductive OpenName
  | var (function : FunctionId) (value : ValueId) (name : Symbol)
  | type (id : TypeId) (name : Symbol)
deriving DecidableEq, Repr

def OpenName.name : OpenName → Symbol
  | var _ _ name => name
  | type _ name => name

/-- What the parts of a unit share. -/
structure Names where
  symbols : SymbolTable
  /-- the name of each requested type; there are no type definitions, so all stay unresolved -/
  types : Array Symbol
  /-- the register: the names left open, in the order in which they turned up -/
  unresolved : Array OpenName
  log : Log
deriving DecidableEq

namespace Names

def empty (log : Log) : Names := ⟨SymbolTable.empty, #[], #[], log⟩

def note (n : Names) (e : Event) : Names := { n with log := n.log.push e }

/-- The symbol of a name, which is interned if it is new. -/
def intern (n : Names) (name : String) : Symbol × Names :=
  let s := n.symbols.intern name
  (s.1, { n with symbols := s.2 })

def register (n : Names) (u : OpenName) : Names :=
  { n with unresolved := n.unresolved.push u }

/-- Ask for a type by name.  Each request makes a new type and registers it. -/
def freshType (n : Names) (name : String) : TypeId × Names :=
  let s := n.intern name
  let id := n.types.size
  (id, { s.2 with types := s.2.types.push s.1 }.register (.type id s.1))

/-- Ask for a type if one is named. -/
def freshType? (n : Names) : Option String → Option TypeId × Names
  | none => (none, n)
  | some name => (some (n.freshType name).1, (n.freshType name).2)

/-- The name of a symbol, for printing. -/
def nameOf (n : Names) (s : Symbol) : String := (n.symbols.name? s).getD "<unknown>"

/-- The names in the register, in order. -/
def listing (n : Names) : List String := n.unresolved.toList.map fun u => n.nameOf u.name

/-- The register as text, one name a line. -/
def print (n : Names) : String := String.join (n.listing.map (· ++ "\n"))

end Names

end Hir

end FrontEnd
