import FrontEnd.Hir.SymbolTable

/-!
# Bindings

A table from symbols to indices, kept in the order of the symbols.

* `Bindings.insert` — bind a symbol; an older binding of it is replaced.
* `Bindings.find?` — the index that a symbol is bound to.
* `Bindings.find?_insert` — the last binding of a symbol is the one that counts.
-/

namespace FrontEnd

namespace Hir

/-- Symbols with the index that each is bound to, smaller symbols first. -/
structure Bindings where
  entries : List (Symbol × Nat)
deriving DecidableEq, Repr

namespace Bindings

def empty : Bindings := ⟨[]⟩

/-- Put an entry in its place, instead of an entry for the same symbol. -/
def place (s : Symbol) (index : Nat) : List (Symbol × Nat) → List (Symbol × Nat)
  | [] => [(s, index)]
  | e :: rest =>
    if s < e.1 then (s, index) :: e :: rest
    else if s = e.1 then (s, index) :: rest
    else e :: place s index rest

def insert (b : Bindings) (s : Symbol) (index : Nat) : Bindings := ⟨place s index b.entries⟩

/-- The index in the first entry for a symbol. -/
def firstIndex? (s : Symbol) : List (Symbol × Nat) → Option Nat
  | [] => none
  | e :: rest => if s = e.1 then some e.2 else firstIndex? s rest

def find? (b : Bindings) (s : Symbol) : Option Nat := firstIndex? s b.entries

@[simp] theorem find?_empty (s : Symbol) : empty.find? s = none := rfl

theorem firstIndex?_place (s t : Symbol) (index : Nat) (entries : List (Symbol × Nat)) :
    firstIndex? t (place s index entries) =
      if t = s then some index else firstIndex? t entries := by
  induction entries with
  | nil => rfl
  | cons e rest ih =>
    unfold place
    split
    · rfl
    split
    · rename_i h
      by_cases ht : t = s <;> simp [firstIndex?, ht, ← h]
    · rename_i h
      by_cases ht : t = s
      · subst ht
        simpa [firstIndex?, h] using ih
      · simp [firstIndex?, ih, ht]

/-- **The last binding of a symbol counts, and no other symbol is touched.** -/
theorem find?_insert (b : Bindings) (s t : Symbol) (index : Nat) :
    (b.insert s index).find? t = if t = s then some index else b.find? t :=
  firstIndex?_place s t index b.entries

end Bindings

end Hir

end FrontEnd
