/-!
# Symbols

Every name of a unit is interned once and known by its symbol from then on.

* `Symbol` — the number of a name, counted in the order of first use.
* `SymbolTable` — the interned names; no name stands in it twice.
* `SymbolTable.intern` — the symbol of a name, which is added if it is new.
* `SymbolTable.lookup`, `SymbolTable.name?` — from a name to its symbol and back.
-/

namespace FrontEnd

namespace Hir

/-- The number of an interned name. -/
abbrev Symbol := Nat

/-- The interned names, by symbol. -/
structure SymbolTable where
  names : Array String
  nodup : names.toList.Nodup
deriving DecidableEq

namespace SymbolTable

def empty : SymbolTable := ⟨#[], .nil⟩

def size (t : SymbolTable) : Nat := t.names.size

/-- The symbol of an interned name. -/
def lookup (t : SymbolTable) (name : String) : Option Symbol := t.names.findIdx? (· == name)

def name? (t : SymbolTable) (s : Symbol) : Option String := t.names[s]?

theorem not_mem_of_lookup_eq_none {t : SymbolTable} {name : String}
    (h : t.lookup name = none) : name ∉ t.names := by
  intro hmem
  have := Array.findIdx?_eq_none_iff.1 h name hmem
  simp at this

def add (t : SymbolTable) (name : String) (h : name ∉ t.names) : SymbolTable :=
  ⟨t.names.push name, by
    rw [Array.toList_push, List.nodup_append]
    refine ⟨t.nodup, by simp, ?_⟩
    intro a ha b hb
    rw [List.mem_singleton] at hb
    subst hb
    exact fun e => h (Array.mem_toList_iff.1 (e ▸ ha))⟩

/-- The symbol of a name, which is interned if it is new. -/
def intern (t : SymbolTable) (name : String) : Symbol × SymbolTable :=
  match h : t.lookup name with
  | some s => (s, t)
  | none => (t.size, t.add name (not_mem_of_lookup_eq_none h))

end SymbolTable

end Hir

end FrontEnd
