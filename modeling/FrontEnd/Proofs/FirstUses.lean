import FrontEnd.Proofs.FunctionTree

/-!
# Names in the order of first use

Symbols are numbers, counted in the order in which names are first used.  A unit uses names in a fixed
order, which can be read off its tree.

* `SymbolTable.internAll` — names interned one after the other; `names_internAll`, what the table then has.
* `Expression.uses`, `FunctionDecl.uses`, `Item.uses`, `Program.uses` — the names that a tree uses, in the
  order in which its lowering comes to them.
* `DraftOp.uses`, `Draft.symbols_perform` — the names that an operation interns.
* `Draft.symbols_lower`, `symbols_lowerItems`, `Program.symbols_lower` — the lowering of a tree interns the
  names that the tree uses, in that order.
* `compile_symbols` — the symbols of a compiled unit are these names, each counted once.
-/

namespace FrontEnd

open Hir

/-! ## Names interned one after the other -/

/-- In a list that has no duplicates nothing is erased. -/
theorem eraseDups_of_nodup {names : List String} (h : names.Nodup) : names.eraseDups = names := by
  induction names with
  | nil => rfl
  | cons name rest ih =>
      obtain ⟨fresh, nodup⟩ := List.nodup_cons.1 h
      have kept : rest.filter (fun other => !other == name) = rest := by
        refine List.filter_eq_self.2 fun other hmem => ?_
        simpa using fun he : other = name => fresh (he ▸ hmem)
      rw [List.eraseDups_cons, kept, ih nodup]

/-- A name that came before is erased. -/
theorem eraseDups_append_cons_of_mem {names : List String} {name : String} (h : name ∈ names)
    (rest : List String) : (names ++ name :: rest).eraseDups = (names ++ rest).eraseDups := by
  have removed : (name :: rest).removeAll names = rest.removeAll names := by
    simp [List.removeAll, h]
  rw [List.eraseDups_append, List.eraseDups_append, removed]

namespace Hir.SymbolTable

/-- The table after the names were interned in order. -/
def internAll (t : SymbolTable) (names : List String) : SymbolTable :=
  names.foldl (fun t name => (t.intern name).2) t

@[simp] theorem internAll_nil (t : SymbolTable) : t.internAll [] = t := rfl

@[simp] theorem internAll_cons (t : SymbolTable) (name : String) (names : List String) :
    t.internAll (name :: names) = (t.intern name).2.internAll names := rfl

@[simp] theorem internAll_append (t : SymbolTable) (names names' : List String) :
    t.internAll (names ++ names') = (t.internAll names).internAll names' := List.foldl_append

/-- **Names that are interned follow the older ones, each in the place of its first occurrence.** -/
theorem names_internAll (t : SymbolTable) (names : List String) :
    (t.internAll names).names.toList = (t.names.toList ++ names).eraseDups := by
  induction names generalizing t with
  | nil => rw [internAll_nil, List.append_nil, eraseDups_of_nodup t.nodup]
  | cons name rest ih =>
      rw [internAll_cons, ih]
      cases h : t.lookup name with
      | some s =>
          have hmem : name ∈ t.names.toList :=
            Array.mem_toList_iff.2 (Array.mem_of_getElem? (lookup_eq_some_iff.1 h))
          rw [intern_of_lookup h, eraseDups_append_cons_of_mem hmem]
      | none =>
          rw [(names_intern_of_lookup h).2, Array.toList_push, List.append_assoc,
            List.singleton_append]

theorem mem_names_internAll {t : SymbolTable} {names : List String} {name : String} :
    name ∈ (t.internAll names).names ↔ name ∈ t.names ∨ name ∈ names := by
  rw [← Array.mem_toList_iff, names_internAll, List.mem_eraseDups, List.mem_append,
    Array.mem_toList_iff]

end Hir.SymbolTable

/-! ## The names that a tree uses -/

/-- The type of a declared variable, if there is one, then its name. -/
def VariableDecl.uses (d : VariableDecl) : List String := d.typeName.toList ++ [d.name]

def Argument.uses (a : Argument) : List String := [a.typeName, a.name]

/-- The names that an expression uses, in the order of its evaluation.  An operator is used behind both
of its operands, under the name that all operators have. -/
def Expression.uses : Expression → List String
  | block inner => inner.uses
  | sequence first next => first.uses ++ next.uses
  | declaration d => d.uses
  | binary op left right =>
    (if op.isAssignment then right.uses ++ left.uses else left.uses ++ right.uses) ++ [operatorCallee]
  | identifier name => [name]
  | number _ | string _ | char _ | empty => []

/-- The names that a function uses: its own name, those of the arguments, the return type, and those of
the body. -/
def FunctionDecl.uses (f : FunctionDecl) : List String :=
  f.name :: (f.arguments.flatMap (·.uses) ++ f.returnType :: f.body.uses)

mutual

/-- The names that a declaration uses.  The name of a module stands in front of what is inside. -/
def Item.uses : Item → List String
  | .module name items => name :: usesOfItems items
  | .function f => f.uses

def usesOfItems : List Item → List String
  | [] => []
  | item :: rest => item.uses ++ usesOfItems rest

end

/-- The names that a program uses.  The name of the root module is the first one. -/
def Program.uses (p : Program) : List String := "root" :: usesOfItems p

/-! ## The names that a lowering interns -/

def Hir.DraftOp.uses : DraftOp → List String
  | declare d => d.uses
  | reference name => [name]
  | addParameter a => a.uses
  | declareReturn typeName => [typeName]
  | _ => []

namespace Hir.Draft

/-- An operation interns the names that it uses, and no other. -/
theorem symbols_perform (b : Draft) (op : DraftOp) :
    (b.perform op).2.names.symbols = b.names.symbols.internAll op.uses := by
  cases op with
  | closeBlock =>
      show b.closeBlock.2.names.symbols = b.names.symbols
      unfold closeBlock
      split <;> rfl
  | reference name =>
      show (b.reference name).2.names.symbols = (b.names.symbols.intern name).2
      unfold reference
      dsimp only
      split <;> rfl
  | declare d =>
      obtain ⟨name, _ | typeName, isMutable⟩ := d <;> rfl
  | _ => rfl

theorem symbols_callOperator (b : Draft) (left right : Ref) :
    (b.callOperator left right).2.names.symbols = b.names.symbols.internAll [operatorCallee] :=
  b.symbols_perform (.reference operatorCallee)

/-- **The lowering of an expression interns the names that the expression uses, in their order.** -/
theorem symbols_lower (e : Expression) (b : Draft) :
    (e.lower b).2.names.symbols = b.names.symbols.internAll e.uses := by
  induction e generalizing b with
  | block inner ih =>
      have closed := ((inner.lower b.openBlock).2.append (inner.lower b.openBlock).1).symbols_perform
        .closeBlock
      exact closed.trans (ih b.openBlock)
  | sequence first next ih ih' =>
      have inner : ((first.lower b).2.append (first.lower b).1).names.symbols = _ := ih b
      rw [Expression.uses, SymbolTable.internAll_append, ← inner]
      exact ih' _
  | declaration d => exact b.symbols_perform (.declare d)
  | binary op left right ih ih' =>
      unfold Expression.lower Expression.uses
      rw [SymbolTable.internAll_append]
      split
      · rw [SymbolTable.internAll_append, ← ih', ← ih]
        exact symbols_callOperator _ _ _
      · rw [SymbolTable.internAll_append, ← ih, ← ih']
        exact symbols_callOperator _ _ _
  | identifier name => exact b.symbols_perform (.reference name)
  | number | string | char | empty => rfl

theorem symbols_addParameters (arguments : List Argument) (b : Draft) :
    (b.addParameters arguments).names.symbols =
      b.names.symbols.internAll (arguments.flatMap (·.uses)) := by
  induction arguments generalizing b with
  | nil => rfl
  | cons a rest ih =>
      have first : (b.addParameter a).2.names.symbols = b.names.symbols.internAll a.uses :=
        b.symbols_perform (.addParameter a)
      rw [List.flatMap_cons, SymbolTable.internAll_append, ← first]
      exact ih _

end Hir.Draft

/-- A function that is added to a unit brings the names that it uses. -/
theorem FunctionDecl.symbols_lower (f : FunctionDecl) (parent : ModuleId) (u : CompilationUnit) :
    (f.lower parent u).names.symbols = u.names.symbols.internAll f.uses := by
  let started := u.startFunction parent f.name
  let signed := (started.addParameters f.arguments).declareReturn f.returnType
  have signature : signed.names.symbols =
      (started.names.symbols.internAll (f.arguments.flatMap (·.uses))).internAll [f.returnType] := by
    rw [← Draft.symbols_addParameters]
    exact Draft.symbols_perform _ (.declareReturn f.returnType)
  have body : (f.lower parent u).names.symbols = signed.names.symbols.internAll f.body.uses :=
    Draft.symbols_lower (.block f.body) signed
  rw [body, signature]
  exact (SymbolTable.internAll_append started.names.symbols _ (f.returnType :: f.body.uses)).symm

mutual

theorem Item.symbols_lower (parent : ModuleId) (u : CompilationUnit) :
    ∀ item : Item, (item.lower parent u).names.symbols = u.names.symbols.internAll item.uses
  | .module name items => by
      rw [Item.lower, Item.uses, SymbolTable.internAll_cons]
      exact symbols_lowerItems _ (u.addModule parent name).2 items
  | .function f => by
      rw [Item.lower, Item.uses, f.symbols_lower]

/-- **Declarations intern the names that they use, one declaration after the other.** -/
theorem symbols_lowerItems (parent : ModuleId) (u : CompilationUnit) :
    ∀ items : List Item,
      (lowerItems parent items u).names.symbols = u.names.symbols.internAll (usesOfItems items)
  | [] => by rw [lowerItems, usesOfItems, SymbolTable.internAll_nil]
  | item :: rest => by
      rw [lowerItems, usesOfItems, SymbolTable.internAll_append, symbols_lowerItems parent _ rest,
        item.symbols_lower parent u]

end

theorem Program.symbols_lower (p : Program) (log : Log) :
    (p.lower log).names.symbols = SymbolTable.empty.internAll p.uses := by
  rw [Program.uses, SymbolTable.internAll_cons]
  exact symbols_lowerItems _ _ p

/-! ## Compiled units -/

variable {source : String} {sink : Sink} {u : CompilationUnit}

theorem lowered_of_compiled (h : (compile source sink).result = .ok u) :
    ∃ p : Program, (parseProgram source sink).1 = .ok p ∧
      ∃ e, u = (p.lower (parseProgram source sink).2.log).note e := by
  unfold compile at h
  split at h
  · rename_i p s hp
    cases h
    exact ⟨p, by rw [hp], _, by rw [hp]⟩
  · cases h

theorem symbols_of_compiled (h : (compile source sink).result = .ok u) :
    ∃ p : Program, (parseProgram source sink).1 = .ok p ∧
      u.names.symbols = SymbolTable.empty.internAll p.uses := by
  obtain ⟨p, parsed, e, rfl⟩ := lowered_of_compiled h
  exact ⟨p, parsed, p.symbols_lower _⟩

/-- **The symbols of a compiled unit are the names that the program uses, in the order of first use.**
By their symbols they are the list of all uses, in which a name that came before is left out.  No name has
two symbols, and no symbol is there for a name that is not used. -/
theorem compile_symbols (h : (compile source sink).result = .ok u) :
    ∃ p : Program, (parseProgram source sink).1 = .ok p ∧
      (∀ s, u.names.symbols.name? s = p.uses.eraseDups[s]?) ∧
      (∀ name s, u.names.symbols.lookup name = some s ↔ p.uses.eraseDups[s]? = some name) ∧
      u.names.symbols.names.toList.Nodup ∧
      ∀ name, name ∈ u.names.symbols.names ↔ name ∈ p.uses := by
  obtain ⟨p, parsed, symbols⟩ := symbols_of_compiled h
  have names : u.names.symbols.names.toList = p.uses.eraseDups := by
    rw [symbols, SymbolTable.names_internAll]
    rfl
  have named : ∀ s, u.names.symbols.name? s = p.uses.eraseDups[s]? := by
    intro s
    rw [← names, Array.getElem?_toList]
    rfl
  refine ⟨p, parsed, named, fun name s => ?_, u.names.symbols.nodup, fun name => ?_⟩
  · rw [SymbolTable.lookup_eq_some_iff, named]
  · rw [symbols, SymbolTable.mem_names_internAll]
    exact or_iff_right (Array.not_mem_empty name)

/-- The right operands of the assignment are used before the variable on the left and its type, which was
used before. -/
theorem compile_symbols_assignment :
    ∃ u, (compile "fn f(a: t) -> r \x7b var x: t = y + a \x7d" (.empty none)).result = .ok u ∧
      (List.range 9).map u.names.symbols.name? =
        ["root", "f", "t", "a", "r", "y", "binary", "x"].map some ++ [none] := by
  have parsed : (parseProgram "fn f(a: t) -> r \x7b var x: t = y + a \x7d" (.empty none)).1 =
      .ok [.function ⟨"f", [⟨"a", "t"⟩], "r", .binary .assign (.declaration ⟨"x", some "t", true⟩)
        (.binary .plus (.identifier "y") (.identifier "a"))⟩] := by decide +kernel
  obtain ⟨u, compiled, -⟩ := compile_of_parsed parsed
  obtain ⟨p, parsed', named, -⟩ := compile_symbols compiled
  rw [parsed] at parsed'
  cases parsed'
  refine ⟨u, compiled, ?_⟩
  rw [List.map_congr_left fun s _ => named s]
  decide +kernel

end FrontEnd
