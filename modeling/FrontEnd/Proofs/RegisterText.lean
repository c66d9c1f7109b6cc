import FrontEnd.Proofs.DiagnosticLines
import FrontEnd.Proofs.FirstUses
import FrontEnd.Proofs.RoundTrip

/-!
# The register as text

The register is printed without quotes or escapes, one name a line.  It can be read back, since all names
are identifiers.

* `splitOn_lines` — lines without line feeds are found again in their text.
* `SpelledItems.uses` — all names that a well spelled tree uses are identifiers.
* `isIdentifier_of_compiled` — so all symbols of a compiled unit are.
* `Names.Listed` — the names in the register are symbols; `listed_of_compiled`.
* `compile_print` — the printed register has the names of the entries as its lines.
-/

namespace FrontEnd

open Hir

/-! ## Lines -/

/-- Lines that hold no line feed are found again in the text. -/
theorem splitOn_lines {lines : List String} (h : ∀ line ∈ lines, '\n' ∉ line.toList) :
    (String.join (lines.map (· ++ "\n"))).toList.splitOn '\n' = lines.map String.toList ++ [[]] := by
  induction lines with
  | nil => rfl
  | cons line rest ih =>
      obtain ⟨first, others⟩ := List.forall_mem_cons.1 h
      have text : (String.join ((line :: rest).map (· ++ "\n"))).toList =
          line.toList ++ '\n' :: (String.join (rest.map (· ++ "\n"))).toList := by
        simp [String.toList_join]
      have unbroken : ∀ c ∈ line.toList, (c == '\n') = false := by
        intro c hc
        simpa using fun he : c = '\n' => first (he ▸ hc)
      rw [text, List.splitOn, List.splitOnP_append_cons_of_forall_mem unbroken _ (by rfl)]
      exact congrArg (line.toList :: ·) (ih others)

/-! ## Names are identifiers -/

theorem isIdentifier_operatorCallee : IsIdentifier operatorCallee.toList := by decide

theorem isIdentifier_root : IsIdentifier "root".toList := by decide

theorem VariableDecl.Spelled.uses {d : VariableDecl} (h : d.Spelled) :
    ∀ name ∈ d.uses, IsIdentifier name.toList := by
  intro name hname
  rcases List.mem_append.1 hname with hname | hname
  · exact h.2 name (Option.mem_toList.1 hname)
  · exact List.mem_singleton.1 hname ▸ h.1

theorem Argument.Spelled.uses {a : Argument} (h : a.Spelled) :
    ∀ name ∈ a.uses, IsIdentifier name.toList :=
  List.forall_mem_cons.2 ⟨h.2, List.forall_mem_singleton.2 h.1⟩

theorem Expression.Spelled.uses {e : Expression} (h : e.Spelled) :
    ∀ name ∈ e.uses, IsIdentifier name.toList := by
  induction e with
  | block inner ih => exact ih h
  | sequence first next ih ih' => exact List.forall_mem_append.2 ⟨ih h.1, ih' h.2⟩
  | declaration d => exact VariableDecl.Spelled.uses h
  | binary op left right ih ih' =>
      unfold Expression.uses
      refine List.forall_mem_append.2 ⟨?_, List.forall_mem_singleton.2 isIdentifier_operatorCallee⟩
      split
      · exact List.forall_mem_append.2 ⟨ih' h.2, ih h.1⟩
      · exact List.forall_mem_append.2 ⟨ih h.1, ih' h.2⟩
  | identifier name => exact List.forall_mem_singleton.2 h.1
  | number | string | char | empty => exact List.forall_mem_nil _

theorem FunctionDecl.Spelled.uses {f : FunctionDecl} (h : f.Spelled) :
    ∀ name ∈ f.uses, IsIdentifier name.toList := by
  refine List.forall_mem_cons.2 ⟨h.name, List.forall_mem_append.2 ⟨fun name hname => ?_, ?_⟩⟩
  · obtain ⟨a, ha, hname⟩ := List.mem_flatMap.1 hname
    exact (h.arguments a ha).uses name hname
  · exact List.forall_mem_cons.2 ⟨h.returnType, h.body.uses⟩

mutual

theorem Item.Spelled.uses : ∀ {item : Item}, item.Spelled →
    ∀ name ∈ item.uses, IsIdentifier name.toList
  | .module name items, h => by
      rw [Item.Spelled] at h
      rw [Item.uses]
      exact List.forall_mem_cons.2 ⟨h.1, SpelledItems.uses h.2⟩
  | .function f, h => by
      rw [Item.Spelled] at h
      rw [Item.uses]
      exact h.uses

/-- **All names that well spelled declarations use are identifiers.** -/
theorem SpelledItems.uses : ∀ {items : List Item}, SpelledItems items →
    ∀ name ∈ usesOfItems items, IsIdentifier name.toList
  | [], _ => by
      rw [usesOfItems]
      exact List.forall_mem_nil _
  | item :: rest, h => by
      rw [SpelledItems] at h
      rw [usesOfItems]
      exact List.forall_mem_append.2 ⟨Item.Spelled.uses h.1, SpelledItems.uses h.2⟩

end

variable {source : String} {sink : Sink} {u : CompilationUnit}

/-- **Every symbol of a compiled unit stands for an identifier.** -/
theorem isIdentifier_of_compiled (h : (compile source sink).result = .ok u) :
    ∀ name ∈ u.names.symbols.names, IsIdentifier name.toList := by
  obtain ⟨p, parsed, symbols⟩ := symbols_of_compiled h
  have used : ∀ name ∈ p.uses, IsIdentifier name.toList :=
    List.forall_mem_cons.2 ⟨isIdentifier_root, (spelled_of_parsed parsed).uses⟩
  intro name hname
  rw [symbols, SymbolTable.mem_names_internAll] at hname
  exact used name (hname.resolve_left (Array.not_mem_empty name))

/-! ## The register -/

namespace Hir

/-- The names in the register are symbols. -/
def Names.Listed (n : Names) : Prop := ∀ e ∈ n.unresolved, e.name < n.symbols.size

namespace Names

variable {n : Names}

theorem Listed.extend {n' : Names} (h : n.Listed) (hn : n.symbols.size ≤ n'.symbols.size)
    (hu : n'.unresolved = n.unresolved) : n'.Listed := by
  intro e he
  rw [hu] at he
  exact Nat.lt_of_lt_of_le (h e he) hn

theorem Listed.intern (h : n.Listed) (name : String) : (n.intern name).2.Listed :=
  h.extend SymbolTable.size_le_size_intern rfl

theorem Listed.register (h : n.Listed) {e : OpenName} (he : e.name < n.symbols.size) :
    (n.register e).Listed := by
  intro e' hmem
  rcases Array.mem_push.1 hmem with hmem | rfl
  · exact h e' hmem
  · exact he

theorem Listed.freshType (h : n.Listed) (name : String) : (n.freshType name).2.Listed :=
  Listed.register (n := { (n.intern name).2 with types := n.types.push (n.intern name).1 })
    ((h.intern name).extend (Nat.le_refl _) rfl) (Draft.WellFormed.lt_size_intern n name)

theorem Listed.freshType? (h : n.Listed) (name : Option String) : (n.freshType? name).2.Listed := by
  cases name with
  | none => exact h
  | some name => exact h.freshType name

end Names

/-- **An operation registers symbols only.** -/
theorem Draft.listed_perform (b : Draft) (op : DraftOp) (h : b.names.Listed) :
    (b.perform op).2.names.Listed := by
  cases op with
  | closeBlock =>
      show b.closeBlock.2.names.Listed
      unfold closeBlock
      split
      · exact h.extend (Nat.le_refl _) rfl
      · exact h
  | declare d => exact (h.freshType? d.typeName).intern d.name
  | reference name =>
      show (b.reference name).2.names.Listed
      unfold reference
      dsimp only
      split
      · exact h.intern name
      · exact ((h.intern name).extend (Nat.le_refl _) rfl).register
          (WellFormed.lt_size_intern b.names name)
  | addParameter a => exact (h.freshType a.typeName).intern a.name
  | declareReturn typeName => exact h.freshType typeName
  | _ => exact h

theorem CompilationUnit.kept_listed : Kept fun u => u.names.Listed where
  addModule := fun u _ name h =>
    Names.Listed.intern (n := u.names.note (.createdModule name)) h name
  lower := fun u _ d h =>
    build_keeps (P := fun b => b.names.Listed) Draft.listed_perform d
      (Names.Listed.intern (n := u.names.note (.createdFunction d.name)) h d.name)

end Hir

theorem listed_of_compiled (h : (compile source sink).result = .ok u) : u.names.Listed := by
  obtain ⟨p, -, e, rfl⟩ := lowered_of_compiled h
  have start : (CompilationUnit.fresh (parseProgram source sink).2.log).names.Listed :=
    fun e he => absurd he (Array.not_mem_empty e)
  exact (CompilationUnit.kept_listed.lowerItems start CompilationUnit.root p).extend (Nat.le_refl _) rfl

theorem Hir.Names.Listed.listing {n : Names} (h : n.Listed) :
    n.listing.map some = n.unresolved.toList.map fun e => n.symbols.name? e.name := by
  unfold Names.listing
  rw [List.map_map]
  refine List.map_congr_left fun e he => ?_
  obtain ⟨name, named⟩ := SymbolTable.exists_lookup (h e (Array.mem_toList_iff.1 he))
  show some (n.nameOf e.name) = _
  unfold Names.nameOf
  rw [SymbolTable.lookup_eq_some_iff.1 named]
  rfl

theorem Hir.Names.Listed.mem_names {n : Names} (h : n.Listed) {name : String}
    (hname : name ∈ n.listing) : name ∈ n.symbols.names := by
  have entry := List.mem_map_of_mem (f := some) hname
  rw [h.listing] at entry
  obtain ⟨e, -, named⟩ := List.mem_map.1 entry
  exact Array.mem_of_getElem? named

/-- The printed register of a compiled unit has the listed names as its lines. -/
theorem splitOn_print (h : (compile source sink).result = .ok u) :
    u.names.print.toList.splitOn '\n' = u.names.listing.map String.toList ++ [[]] :=
  splitOn_lines fun name hname =>
    (isIdentifier_of_compiled h name ((listed_of_compiled h).mem_names hname)).unbroken

/-- Two compiled units that print the same text list the same names. -/
theorem listing_eq_of_print_eq {source' : String} {sink' : Sink} {u' : CompilationUnit}
    (h : (compile source sink).result = .ok u) (h' : (compile source' sink').result = .ok u')
    (same : u.names.print = u'.names.print) : u.names.listing = u'.names.listing := by
  have lines : u.names.listing.map String.toList ++ [[]] = u'.names.listing.map String.toList ++ [[]] := by
    rw [← splitOn_print h, ← splitOn_print h', same]
  exact List.map_injective_iff.2 (fun _ _ => String.toList_injective) (List.append_cancel_right lines)

/-- **The printed register can be read back line by line.**  All symbols of a compiled unit stand for
identifiers, and the name of each entry of the register is the one of a symbol.  The printed text, split at
its line feeds, gives these names in the order of the entries, and nothing behind the last line feed.  So two
compiled units print the same text just when they list the same names. -/
theorem compile_print (h : (compile source sink).result = .ok u) :
    (∀ name ∈ u.names.symbols.names, IsIdentifier name.toList) ∧
    (u.names.listing.map some =
        u.names.unresolved.toList.map fun e => u.names.symbols.name? e.name) ∧
    "<unknown>" ∉ u.names.listing ∧
    u.names.print.toList.splitOn '\n' = u.names.listing.map String.toList ++ [[]] ∧
    ∀ {source' : String} {sink' : Sink} {u' : CompilationUnit},
      (compile source' sink').result = .ok u' →
        (u.names.print = u'.names.print ↔ u.names.listing = u'.names.listing) := by
  have listed := listed_of_compiled h
  have identifiers := isIdentifier_of_compiled h
  refine ⟨identifiers, listed.listing, fun unknown => ?_, splitOn_print h, fun h' =>
    ⟨listing_eq_of_print_eq h h', fun same => ?_⟩⟩
  · obtain ⟨c, v, text, start, -⟩ := identifiers _ (listed.mem_names unknown)
    cases text
    exact absurd start (by decide)
  · unfold Names.print
    rw [same]

/-- The types are listed with the variables, and a name that is not bound is listed for each of its uses. -/
theorem compile_print_repeated :
    ∃ u, (compile "module m \x7b fn g(a: T) -> U \x7b a + missing; missing \x7d \x7d"
        (.empty none)).result = .ok u ∧
      u.names.print = "T\nU\nmissing\nbinary\nmissing\n" ∧
      u.names.print.toList.splitOn '\n' =
        ["T".toList, "U".toList, "missing".toList, "binary".toList, "missing".toList, []] := by
  have parsed : (parseProgram "module m \x7b fn g(a: T) -> U \x7b a + missing; missing \x7d \x7d"
      (.empty none)).1 =
      .ok [.module "m" [.function ⟨"g", [⟨"a", "T"⟩], "U", .sequence
        (.binary .plus (.identifier "a") (.identifier "missing")) (.identifier "missing")⟩]] := by decide +kernel
  obtain ⟨u, compiled, -⟩ := compile_of_parsed parsed
  obtain ⟨-, -, -, lines, -⟩ := compile_print compiled
  have listing : u.names.listing = ["T", "U", "missing", "binary", "missing"] := by
    obtain ⟨p, parsed', e, rfl⟩ := lowered_of_compiled compiled
    rw [parsed] at parsed'
    cases parsed'
    show (Program.lower _ _).names.listing = _
    decide +kernel
  refine ⟨u, compiled, ?_, ?_⟩
  · unfold Names.print
    rw [listing]
    decide +kernel
  · rw [lines, listing]
    rfl

end FrontEnd
