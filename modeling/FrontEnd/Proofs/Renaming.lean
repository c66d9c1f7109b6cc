import FrontEnd.Proofs.Interning
import FrontEnd.Proofs.Simulation
import Mathlib.Logic.Equiv.Basic

/-!
# Lowering commutes with renaming

Names are compared and nothing else: a program whose names are mapped one to one is lowered to the same
unit, with the names mapped in its table.

* `SymbolTable.lookup_rename`, `Names.Renamed.intern` — a mapped name has the symbol of the name.
* `Draft.Renamed`, `CompilationUnit.Renamed` — the same function, and the same unit, up to the names of
  the symbols.
* `Draft.simulates_renamed` — every operation keeps this.
* `Program.lower_rename` — so does the lowering of a program.
-/

namespace FrontEnd

namespace Hir

variable {r : String → String}

/-! ## Names -/

namespace SymbolTable

variable {t t' : SymbolTable} (hr : Function.Injective r) (ht : t'.names = t.names.map r)

include hr ht

/-- A mapped name has the symbol of the name. -/
theorem lookup_rename (name : String) : t'.lookup (r name) = t.lookup name := by
  ext s
  rw [lookup_eq_some_iff, lookup_eq_some_iff]
  unfold name?
  rw [ht, Array.getElem?_map, ← Option.map_some]
  exact (Option.map_injective hr).eq_iff

theorem intern_rename (name : String) :
    (t'.intern (r name)).1 = (t.intern name).1 ∧
      (t'.intern (r name)).2.names = (t.intern name).2.names.map r := by
  have same := lookup_rename hr ht name
  cases hl : t.lookup name with
  | some s =>
      rw [hl] at same
      rw [intern_of_lookup hl, intern_of_lookup same]
      exact ⟨rfl, ht⟩
  | none =>
      rw [hl] at same
      obtain ⟨symbol, names⟩ := names_intern_of_lookup hl
      obtain ⟨symbol', names'⟩ := names_intern_of_lookup same
      rw [symbol, symbol', names, names', ht, Array.map_push]
      exact ⟨by simp [size, ht], rfl⟩

end SymbolTable

namespace Names

/-- The names of the symbols are mapped, and all else is the same. -/
structure Renamed (r : String → String) (n n' : Names) : Prop where
  symbols : n'.symbols.names = n.symbols.names.map r
  types : n'.types = n.types
  unresolved : n'.unresolved = n.unresolved

variable {n n' : Names}

theorem Renamed.note (h : Renamed r n n') (e e' : Event) : Renamed r (n.note e) (n'.note e') :=
  ⟨h.symbols, h.types, h.unresolved⟩

theorem Renamed.register (h : Renamed r n n') (entry : OpenName) :
    Renamed r (n.register entry) (n'.register entry) :=
  ⟨h.symbols, h.types, congrArg (·.push entry) h.unresolved⟩

variable (hr : Function.Injective r)

include hr

/-- A mapped name is interned as the symbol of the name. -/
theorem Renamed.intern (h : Renamed r n n') (name : String) :
    (n'.intern (r name)).1 = (n.intern name).1 ∧ Renamed r (n.intern name).2 (n'.intern (r name)).2 :=
  have interned := SymbolTable.intern_rename hr h.symbols name
  ⟨interned.1, interned.2, h.types, h.unresolved⟩

theorem Renamed.freshType (h : Renamed r n n') (name : String) :
    (n'.freshType (r name)).1 = (n.freshType name).1 ∧
      Renamed r (n.freshType name).2 (n'.freshType (r name)).2 := by
  obtain ⟨symbol, interned⟩ := h.intern hr name
  have id : n'.types.size = n.types.size := congrArg Array.size h.types
  unfold Names.freshType
  dsimp only
  rw [symbol, id]
  have stored : Renamed r
      { (n.intern name).2 with types := (n.intern name).2.types.push (n.intern name).1 }
      { (n'.intern (r name)).2 with types := (n'.intern (r name)).2.types.push (n.intern name).1 } :=
    ⟨interned.symbols, congrArg (·.push (n.intern name).1) interned.types, interned.unresolved⟩
  exact ⟨rfl, stored.register _⟩

theorem Renamed.freshType? (h : Renamed r n n') (name : Option String) :
    (n'.freshType? (name.map r)).1 = (n.freshType? name).1 ∧
      Renamed r (n.freshType? name).2 (n'.freshType? (name.map r)).2 := by
  cases name with
  | none => exact ⟨rfl, h⟩
  | some name =>
      obtain ⟨id, asked⟩ := h.freshType hr name
      exact ⟨congrArg some id, asked⟩

end Names

/-! ## Functions -/

namespace Draft

/-- The same function under construction, up to the names of the symbols. -/
structure Renamed (r : String → String) (b b' : Draft) : Prop where
  names : b.names.Renamed r b'.names
  id : b'.id = b.id
  function : b'.function = b.function
  blocks : b'.blocks = b.blocks

/-- **Every operation runs the same on mapped names.** -/
theorem simulates_renamed (hr : Function.Injective r) (op : DraftOp) :
    op.Simulates r (Renamed r) := by
  rintro ⟨n, id, f, blocks⟩ ⟨n', id', f', blocks'⟩ ⟨names, hid, hf, hblocks⟩
  obtain rfl : id' = id := hid
  obtain rfl : f' = f := hf
  obtain rfl : blocks' = blocks := hblocks
  cases op with
  | openBlock => exact ⟨rfl, names, rfl, rfl, rfl⟩
  | append v => exact ⟨rfl, names, rfl, rfl, rfl⟩
  | literal kind text => exact ⟨rfl, names, rfl, rfl, rfl⟩
  | call callee arguments => exact ⟨rfl, names, rfl, rfl, rfl⟩
  | closeBlock =>
      cases blocks' with
      | nil => exact ⟨rfl, names.note _ _, rfl, rfl, rfl⟩
      | cons block rest => exact ⟨rfl, names, rfl, rfl, rfl⟩
  | reference name =>
      obtain ⟨symbol, interned⟩ := names.intern hr name
      show Agree (Renamed r) (handOut (reference _ name)) (handOut (reference _ (r name)))
      cases hl : f'.lookup (Draft.current ⟨n, id', f', blocks'⟩).scope (n.intern name).1 with
      | some v =>
          have hl' : f'.lookup (Draft.current ⟨n', id', f', blocks'⟩).scope
            (n'.intern (r name)).1 = some v := symbol ▸ hl
          rw [reference_of_lookup hl, reference_of_lookup hl']
          exact ⟨rfl, interned, rfl, rfl, rfl⟩
      | none =>
          have hl' : f'.lookup (Draft.current ⟨n', id', f', blocks'⟩).scope
            (n'.intern (r name)).1 = none := symbol ▸ hl
          rw [reference_of_lookup_eq_none hl, reference_of_lookup_eq_none hl']
          rw [symbol]
          exact ⟨rfl, (interned.note _ _).register _, rfl, rfl, rfl⟩
  | declare d =>
      obtain ⟨type, asked⟩ := names.freshType? hr d.typeName
      obtain ⟨symbol, interned⟩ := asked.intern hr d.name
      refine ⟨rfl, interned, rfl, ?_, rfl⟩
      simp only [DraftOp.rename, VariableDecl.rename, perform, handOut, declare, type, symbol]
      rfl
  | addParameter a =>
      obtain ⟨type, asked⟩ := names.freshType hr a.typeName
      obtain ⟨symbol, interned⟩ := asked.intern hr a.name
      refine ⟨rfl, interned, rfl, ?_, rfl⟩
      simp only [DraftOp.rename, Argument.rename, perform, handOut, addParameter, type, symbol]
  | declareReturn typeName =>
      obtain ⟨type, asked⟩ := names.freshType hr typeName
      refine ⟨rfl, asked, rfl, ?_, rfl⟩
      simp only [DraftOp.rename, perform, declareReturn, type]

end Draft

/-! ## Units -/

namespace CompilationUnit

/-- The same unit, up to the names of the symbols. -/
structure Renamed (r : String → String) (u u' : CompilationUnit) : Prop where
  names : u.names.Renamed r u'.names
  modules : u'.modules = u.modules
  functions : u'.functions = u.functions
  structs : u'.structs = u.structs
  classes : u'.classes = u.classes

variable {u u' : CompilationUnit}

theorem Renamed.fresh (hr : Function.Injective r) (hroot : r "root" = "root") (log log' : Log) :
    Renamed r (CompilationUnit.fresh log) (CompilationUnit.fresh log') := by
  have empty : (Names.empty log).Renamed r (Names.empty log') := ⟨Array.map_empty.symm, rfl, rfl⟩
  obtain ⟨symbol, interned⟩ := empty.intern hr "root"
  rw [hroot] at symbol interned
  refine ⟨interned, ?_, rfl, rfl, rfl⟩
  unfold CompilationUnit.fresh
  dsimp only
  rw [symbol]

theorem Renamed.addModule (h : Renamed r u u') (hr : Function.Injective r) (parent : ModuleId)
    (name : String) :
    (u'.addModule parent (r name)).1 = (u.addModule parent name).1 ∧
      Renamed r (u.addModule parent name).2 (u'.addModule parent (r name)).2 := by
  have noted := h.names.note (.createdModule name) (.createdModule (r name))
  obtain ⟨symbol, interned⟩ := noted.intern hr name
  refine ⟨congrArg Array.size h.modules, interned, ?_, h.functions, h.structs, h.classes⟩
  unfold CompilationUnit.addModule
  dsimp only
  rw [symbol, h.modules]

theorem Renamed.addFunction (h : Renamed r u u') {b b' : Draft} (hb : b.Renamed r b') :
    Renamed r (u.addFunction b) (u'.addFunction b') where
  names := hb.names
  modules := by
    unfold CompilationUnit.addFunction
    dsimp only
    rw [h.modules, hb.function, hb.id]
  functions := by
    unfold CompilationUnit.addFunction
    dsimp only
    rw [h.functions, hb.function]
  structs := h.structs
  classes := h.classes

theorem Renamed.lower (h : Renamed r u u') (hr : Function.Injective r)
    (hop : r operatorCallee = operatorCallee) (d : FunctionDecl) (parent : ModuleId) :
    Renamed r (d.lower parent u) ((d.rename r).lower parent u') := by
  have noted := h.names.note (.createdFunction d.name) (.createdFunction (r d.name))
  obtain ⟨symbol, interned⟩ := noted.intern hr d.name
  have started : Draft.Renamed r (u.startFunction parent d.name)
      (u'.startFunction parent (r d.name)) := by
    refine ⟨interned, congrArg Array.size h.functions, ?_, rfl⟩
    unfold startFunction
    dsimp only
    rw [symbol]
  exact h.addFunction (Draft.simulates_build (Draft.simulates_renamed hr) hop d started)

mutual

theorem Renamed.lowerItem {u u' : CompilationUnit} (h : Renamed r u u') (hr : Function.Injective r)
    (hop : r operatorCallee = operatorCallee) (parent : ModuleId) :
    ∀ item : Item, Renamed r (item.lower parent u) ((item.rename r).lower parent u')
  | .module name items => by
      rw [Item.rename, Item.lower, Item.lower]
      obtain ⟨id, made⟩ := h.addModule hr parent name
      rw [id]
      exact made.lowerItems hr hop _ items
  | .function d => by
      rw [Item.rename, Item.lower, Item.lower]
      exact h.lower hr hop d parent

/-- **Declarations whose names are mapped are lowered to the same**, however they are nested. -/
theorem Renamed.lowerItems {u u' : CompilationUnit} (h : Renamed r u u') (hr : Function.Injective r)
    (hop : r operatorCallee = operatorCallee) (parent : ModuleId) :
    ∀ items : List Item,
      Renamed r (lowerItems parent items u) (FrontEnd.lowerItems parent (renameItems r items) u')
  | [] => by
      rw [renameItems, FrontEnd.lowerItems, FrontEnd.lowerItems]
      exact h
  | item :: rest => by
      rw [renameItems, FrontEnd.lowerItems, FrontEnd.lowerItems]
      exact (h.lowerItem hr hop parent item).lowerItems hr hop parent rest

end

end CompilationUnit

end Hir

open Hir

/-- **Lowering commutes with renaming.**  If a map of names is one to one and keeps the name of the root
module and the name that operators call, the program with its names mapped is lowered to the same
modules, functions, types and open names, number for number.  Only the names of the symbols differ:
they are mapped. -/
theorem Program.lower_rename {r : String → String} (hr : Function.Injective r)
    (hroot : r "root" = "root") (hop : r operatorCallee = operatorCallee) (p : Program)
    (log log' : Log) :
    (p.lower log).Renamed r (Program.lower (renameItems r p) log') :=
  (CompilationUnit.Renamed.fresh hr hroot log log').lowerItems hr hop CompilationUnit.root p

/-- A function and its argument swap their names, and so does each use of them. -/
theorem Program.lower_rename_swap :
    let r := Equiv.swap "f" "x"
    let p : Program := [.module "m" [.function ⟨"f", [⟨"x", "int"⟩], "int",
      .binary .plus (.identifier "x") (.identifier "f")⟩]]
    (p.lower #[]).Renamed r (Program.lower (renameItems r p) #[]) ∧
      (p.lower #[]).names.symbols.names = #["root", "m", "f", "int", "x", "binary"] ∧
      (Program.lower (renameItems r p) #[]).names.symbols.names =
        #["root", "m", "x", "int", "f", "binary"] := by
  intro r p
  refine ⟨lower_rename r.injective ?_ ?_ p #[] #[], ?_, ?_⟩
  · decide
  · decide
  · decide +kernel
  · decide +kernel

end FrontEnd
