import FrontEnd.Proofs.Resolution
import FrontEnd.Hir.Workbench

/-!
# The register of open names

* `Names.typeEntries`, `Function.openEntries` — the entries that the requested types and the unresolved
  variables of a function ask for.
* `DraftOp.requests`, `Command.requests` — the names that an operation leaves open, read off the state
  in which it is run.
* `Draft.Records`, `Draft.records_perform` — what an operation on a draft adds to the register, and that
  it adds the same to what the register is a log of.
* `Command.isBasic`, `Workbench.Reaches` — commands that are one operation of a builder; the others are
  runs of these, `reaches_perform`.
* `Workbench.Registered`, `Registered.perform` — the invariant and its step.
* `Workbench.register_exact` — the register of every unit that can be built.
-/

namespace FrontEnd

namespace Hir

/-! ## What the register is a log of -/

def OpenName.isType : OpenName → Bool
  | type _ _ => true
  | var _ _ _ => false

/-- Whether the entry is for a variable of the function. -/
def OpenName.isOf (k : FunctionId) : OpenName → Bool
  | type _ _ => false
  | var function _ _ => function == k

/-- An entry for each requested type, in order. -/
def Names.typeEntries (n : Names) : List OpenName := n.types.toList.mapIdx .type

namespace Function

/-- The entry for the value at a position, if that is an unresolved variable. -/
def openName? (f : Function) (k : FunctionId) (id : ValueId) : Option OpenName :=
  (f.varAt? id).bind fun x => if x.resolution = .unresolved then some (.var k id x.name) else none

/-- An entry for each unresolved variable, in the order of the values. -/
def openEntries (f : Function) (k : FunctionId) : List OpenName :=
  (List.range f.values.size).filterMap (f.openName? k)

variable {f g : Function} {k : FunctionId}

theorem openEntries_congr (hs : g.values.size = f.values.size)
    (hv : ∀ id, g.varAt? id = f.varAt? id) : g.openEntries k = f.openEntries k := by
  unfold openEntries openName?
  simp only [hs, hv]

theorem openEntries_addValue (f : Function) (v : Value) (k : FunctionId) :
    (f.addValue v).openEntries k =
      f.openEntries k ++ ((f.addValue v).openName? k f.values.size).toList := by
  have old : ∀ id ∈ List.range f.values.size,
      (f.addValue v).openName? k id = f.openName? k id := by
    intro id hid
    unfold openName?
    rw [varAt?_addValue, if_neg (Nat.ne_of_lt (List.mem_range.1 hid))]
  unfold openEntries
  rw [size_values_addValue, List.range_succ, List.filterMap_append, List.filterMap_congr old]
  cases h : (f.addValue v).openName? k f.values.size <;> simp [h]

/-- A value that is no unresolved variable has no entry. -/
theorem openEntries_addValue_of_resolved {v : Value}
    (hv : ∀ x, v.asVariable? = some x → x.resolution = .declared) (f : Function) (k : FunctionId) :
    (f.addValue v).openEntries k = f.openEntries k := by
  rw [openEntries_addValue]
  unfold openName?
  rw [varAt?_addValue, if_pos rfl]
  cases hx : v.asVariable? with
  | none => simp
  | some x => simp [hv x hx]

theorem openEntries_addVariable (f : Function) (s : ScopeId) {x : Variable} (t : Option TypeId)
    (hx : x.resolution = .declared) (k : FunctionId) :
    (f.addVariable s x t).openEntries k = f.openEntries k :=
  openEntries_addValue_of_resolved (v := ⟨.var x, t⟩) (fun y hy => by cases hy; exact hx) f k

theorem openEntries_addParameter (f : Function) (p : Parameter) (k : FunctionId) :
    (f.addParameter p).openEntries k = f.openEntries k := rfl

theorem openEntries_append (f : Function) (block : ValueId) (r : Ref) (k : FunctionId) :
    (f.append block r).openEntries k = f.openEntries k :=
  openEntries_congr (size_values_append f block r) (varAt?_append f block r)

theorem openEntries_fresh (name : Symbol) (parent : ModuleId) (k : FunctionId) :
    (fresh name parent).openEntries k = [] := rfl

end Function

theorem Names.typeEntries_freshType (n : Names) (name : String) :
    (n.freshType name).2.typeEntries = n.typeEntries ++ [.type n.types.size (n.intern name).1] := by
  show (n.types.push _).toList.mapIdx _ = _
  rw [Array.toList_push, List.mapIdx_concat]
  rfl

theorem Names.unresolved_freshType (n : Names) (name : String) :
    (n.freshType name).2.unresolved.toList =
      n.unresolved.toList ++ [.type n.types.size (n.intern name).1] := Array.toList_push

/-- The entry for a requested type stays true as the names grow. -/
theorem Names.registers_freshType {n n' : Names} {name : String} (id : FunctionId)
    (h : (n.freshType name).2.Extends n') :
    Registers n' id (.type name) (.type n.types.size (n.intern name).1) := by
  have stored : (n.freshType name).2.types[n.types.size]? = some (n.intern name).1 :=
    Array.getElem?_push.trans (if_pos rfl)
  exact ⟨h.symbols _ _ SymbolTable.lookup_intern_self, h.types _ _ stored⟩

/-! ## Operations on a draft -/

/-- The names that an operation leaves open: the types that it asks for, and a name that no scope on the
current chain binds. -/
def DraftOp.requests (b : Draft) : DraftOp → List Request
  | declare d => d.typeName.toList.map .type
  | reference name =>
    if (b.function.chain b.current.scope).all fun s => (b.bound? name s).isNone then
      [.use name (.slot b.function.values.size)]
    else []
  | addParameter a => [.type a.typeName]
  | declareReturn typeName => [.type typeName]
  | _ => []

namespace Draft

/-- What is bound in a scope is an interned name. -/
def Interned (b : Draft) : Prop :=
  ∀ s symbol v, b.function.bound? symbol s = some v → symbol < b.names.symbols.size

/-- The register has grown by the entries, and what it is a log of has grown by the same. -/
structure Records (b b' : Draft) (entries : List OpenName) : Prop where
  id : b'.id = b.id
  register : b'.names.unresolved.toList = b.names.unresolved.toList ++ entries
  types : b'.names.typeEntries = b.names.typeEntries ++ entries.filter OpenName.isType
  uses : b'.function.openEntries b.id =
    b.function.openEntries b.id ++ entries.filter (OpenName.isOf b.id)
  others : ∀ k, k ≠ b.id → entries.filter (OpenName.isOf k) = []
  interned : b'.Interned

variable {b b' : Draft}

theorem Interned.of_bound? (h : b.Interned) (hn : b.names.symbols.size ≤ b'.names.symbols.size)
    (hb : ∀ symbol s, b'.function.bound? symbol s = b.function.bound? symbol s) : b'.Interned := by
  intro s symbol v hv
  rw [hb] at hv
  exact Nat.lt_of_lt_of_le (h s symbol v hv) hn

theorem Interned.addVariable (h : b.Interned) {n : Names} {r : ScopeId} {x : Variable}
    {t : Option TypeId} (hn : b.names.symbols.size ≤ n.symbols.size) (hx : x.name < n.symbols.size)
    (hb : ∀ symbol s, b'.function.bound? symbol s = (b.function.addVariable r x t).bound? symbol s)
    (hb' : b'.names = n) : b'.Interned := by
  intro s symbol v hv
  rw [hb, Function.bound?_addVariable] at hv
  rw [hb']
  split at hv
  · rename_i here
    rw [here.2.2]
    exact hx
  · exact Nat.lt_of_lt_of_le (h s symbol v hv) hn

/-- The names that the scopes bind are bound by the symbols that they have once they are interned. -/
theorem Interned.bound?_eq (h : b.Interned) (name : String) (s : ScopeId) :
    b.function.bound? (b.names.intern name).1 s = b.bound? name s := by
  unfold bound?
  show b.function.bound? (b.names.symbols.intern name).1 s = _
  cases hl : b.names.symbols.lookup name with
  | some symbol => rw [SymbolTable.intern_of_lookup hl]; rfl
  | none =>
      rw [(SymbolTable.names_intern_of_lookup hl).1]
      cases hv : b.function.bound? b.names.symbols.size s with
      | none => rfl
      | some v => exact absurd (h s _ v hv) (Nat.lt_irrefl _)

/-- A name is looked up in vain just when no scope on the chain binds it. -/
theorem Interned.lookup_eq_none_iff (h : b.Interned) (name : String) (s : ScopeId) :
    b.function.lookup s (b.names.intern name).1 = none ↔
      ((b.function.chain s).all fun t => (b.bound? name t).isNone) = true := by
  simp [Function.lookup, h.bound?_eq]

theorem Records.quiet (hid : b'.id = b.id) (hu : b'.names.unresolved = b.names.unresolved)
    (ht : b'.names.types = b.names.types)
    (hf : b'.function.openEntries b.id = b.function.openEntries b.id) (hi : b'.Interned) :
    b.Records b' [] where
  id := hid
  register := by rw [hu, List.append_nil]
  types := by
    unfold Names.typeEntries
    rw [ht, List.filter_nil, List.append_nil]
  uses := by rw [hf, List.filter_nil, List.append_nil]
  others := fun _ _ => rfl
  interned := hi

theorem records_request {typeName : String} (hid : b'.id = b.id)
    (hn : (b.names.freshType typeName).2.Extends b'.names)
    (hu : b'.names.unresolved = (b.names.freshType typeName).2.unresolved)
    (ht : b'.names.types = (b.names.freshType typeName).2.types)
    (hf : b'.function.openEntries b.id = b.function.openEntries b.id) (hi : b'.Interned) :
    ∃ entries, b.Records b' entries ∧
      List.Forall₂ (Registers b'.names b.id) [.type typeName] entries := by
  have types : b'.names.typeEntries =
      b.names.typeEntries ++ [.type b.names.types.size (b.names.intern typeName).1] := by
    rw [← Names.typeEntries_freshType]
    unfold Names.typeEntries
    rw [ht]
  refine ⟨[.type b.names.types.size (b.names.intern typeName).1], ?_,
    .cons (Names.registers_freshType b.id hn) .nil⟩
  refine ⟨hid, ?_, types, ?_, fun _ _ => rfl, hi⟩
  · rw [hu, Names.unresolved_freshType]
  · rw [hf]
    exact (List.append_nil _).symm

/-- A name that is bound leaves nothing open; each other name becomes a variable with an entry. -/
theorem records_reference (h : b.Interned) (name : String) :
    ∃ entries, b.Records (b.reference name).2 entries ∧
      List.Forall₂ (Registers (b.reference name).2.names b.id)
        ((DraftOp.reference name).requests b) entries := by
  have unbound := h.lookup_eq_none_iff name b.current.scope
  have grown := Names.extends_intern b.names name
  unfold reference DraftOp.requests
  dsimp only
  cases hv : b.function.lookup b.current.scope (b.names.intern name).1 with
  | some v =>
      rw [hv] at unbound
      rw [if_neg fun all => nomatch unbound.2 all]
      exact ⟨[], .quiet rfl rfl rfl rfl (h.of_bound? grown.size fun _ _ => rfl), .nil⟩
  | none =>
      rw [if_pos (unbound.1 hv)]
      refine ⟨[.var b.id b.function.values.size (b.names.intern name).1], ?_, .cons ⟨?_, rfl, rfl⟩ .nil⟩
      · refine ⟨rfl, Array.toList_push, (List.append_nil _).symm, ?_, fun k hk => ?_, ?_⟩
        · refine (Function.openEntries_addValue _ _ _).trans ?_
          simp [Function.openName?, Function.varAt?_addValue, Value.asVariable?, OpenName.isOf]
        · simp [OpenName.isOf, Ne.symm hk]
        · exact h.of_bound? grown.size fun _ _ => rfl
      · exact SymbolTable.lookup_intern_self

/-- **What an operation adds to the register is what it leaves open**, one entry for each name. -/
theorem records_perform (h : b.Interned) (op : DraftOp) :
    ∃ entries, b.Records (b.perform op).2 entries ∧
      List.Forall₂ (Registers (b.perform op).2.names b.id) (op.requests b) entries := by
  cases op with
  | openBlock =>
      refine ⟨[], .quiet rfl rfl rfl ?_ (h.of_bound? (Nat.le_refl _) ?_), .nil⟩
      · exact Function.openEntries_addValue_of_resolved (fun x hx => by cases hx) _ _
      · exact fun symbol s => Function.bound?_addScope _ _ symbol s
  | closeBlock =>
      refine ⟨[], ?_, .nil⟩
      show b.Records b.closeBlock.2 []
      unfold closeBlock
      split <;> exact .quiet rfl rfl rfl rfl h
  | append r =>
      exact ⟨[], .quiet rfl rfl rfl (Function.openEntries_append _ _ r _) h, .nil⟩
  | literal kind text =>
      have hv : ∀ x, (Value.mk (.literal kind text) none).asVariable? = some x →
          x.resolution = .declared := fun x hx => by cases hx
      exact ⟨[], .quiet rfl rfl rfl (Function.openEntries_addValue_of_resolved hv _ _) h, .nil⟩
  | call callee arguments =>
      have hv : ∀ x, (Value.mk (.call callee arguments) none).asVariable? = some x →
          x.resolution = .declared := fun x hx => by cases hx
      exact ⟨[], .quiet rfl rfl rfl (Function.openEntries_addValue_of_resolved hv _ _) h, .nil⟩
  | reference name => exact records_reference h name
  | declareReturn typeName =>
      have grown := Names.extends_freshType b.names typeName
      exact records_request rfl (.refl _) rfl rfl rfl (h.of_bound? grown.size fun _ _ => rfl)
  | addParameter a =>
      have grown := (Names.extends_freshType b.names a.typeName).trans (Names.extends_intern _ a.name)
      have interned : (b.addParameter a).2.Interned :=
        h.addVariable (r := Function.rootScope)
          (x := ⟨((b.names.freshType a.typeName).2.intern a.name).1, false, .declared⟩)
          (t := some (b.names.freshType a.typeName).1) grown.size (WellFormed.lt_size_intern _ _)
          (fun _ _ => rfl) rfl
      have entries : (b.addParameter a).2.function.openEntries b.id = b.function.openEntries b.id :=
        (Function.openEntries_addParameter _ _ _).trans (Function.openEntries_addVariable _ _ _ rfl _)
      exact records_request rfl (Names.extends_intern _ a.name) rfl rfl entries interned
  | declare d =>
      have grown := (Names.extends_freshType? b.names d.typeName).trans (Names.extends_intern _ d.name)
      have entries : (b.declare d).2.function.openEntries b.id = b.function.openEntries b.id :=
        Function.openEntries_addVariable _ _ _ rfl _
      have interned : (b.declare d).2.Interned :=
        h.addVariable grown.size (WellFormed.lt_size_intern _ _) (fun _ _ => rfl) rfl
      obtain ⟨name, _ | typeName, isMutable⟩ := d
      · exact ⟨[], .quiet rfl rfl rfl entries interned, .nil⟩
      · exact records_request rfl (Names.extends_intern _ name) rfl rfl entries interned

end Draft

/-! ## Commands -/

/-- Whether the command registers a name unchecked. -/
def Command.isRegister : Command → Bool
  | register _ => true
  | _ => false

/-- Whether the command is one operation of a builder.  The others are runs of such operations, or
register a name unchecked. -/
def Command.isBasic : Command → Bool
  | register _ | lowerItems _ | addParameters _ | lowerExpression _ => false
  | _ => true

namespace Workbench

/-- The names that a command which is one operation leaves open. -/
def requests (w : Workbench) (c : Command) : List Request :=
  match c, w.function, w.modules with
  | .build op, some b, _ => op.requests b
  | .freshType name, none, [] => [.type name]
  | _, _, _ => []

theorem names_view (w : Workbench) : w.view.names = w.names := by
  unfold view names
  split <;> rfl

/-! ### Runs of operations -/

/-- A run of operations leads from one workbench to the other. -/
def Reaches (w w' : Workbench) : Prop :=
  ∃ cs : List Command, (∀ c ∈ cs, c.isBasic = true) ∧ (w.performAll cs).2 = w'

variable {w w' w'' : Workbench}

theorem performAll_append (w : Workbench) (cs ds : List Command) :
    (w.performAll (cs ++ ds)).2 = ((w.performAll cs).2.performAll ds).2 := by
  induction cs generalizing w with
  | nil => rfl
  | cons c cs ih => exact ih (w.perform c).2

theorem Reaches.refl (w : Workbench) : w.Reaches w := ⟨[], by simp, rfl⟩

theorem Reaches.trans (h : w.Reaches w') (h' : w'.Reaches w'') : w.Reaches w'' := by
  obtain ⟨cs, hcs, rfl⟩ := h
  obtain ⟨ds, hds, rfl⟩ := h'
  refine ⟨cs ++ ds, fun c hc => ?_, performAll_append w cs ds⟩
  exact (List.mem_append.1 hc).elim (hcs c) (hds c)

theorem Reaches.perform {c : Command} (h : w.Reaches w') (hc : c.isBasic = true) :
    w.Reaches (w'.perform c).2 :=
  h.trans ⟨[c], by simpa using hc, rfl⟩

section

variable {u : CompilationUnit} {ms : List ModuleId} {b : Draft}

theorem perform_build (b : Draft) (op : DraftOp) :
    ((⟨u, ms, some b⟩ : Workbench).perform (.build op)).2 = ⟨u, ms, some (b.perform op).2⟩ := by
  show ((⟨u, ms, some b⟩ : Workbench).performInFunction b (.build op)).2 = _
  unfold performInFunction
  dsimp only
  split <;> rename_i hp <;> rw [hp]

theorem Reaches.build (h : w.Reaches ⟨u, ms, some b⟩) (op : DraftOp) :
    w.Reaches ⟨u, ms, some (b.perform op).2⟩ :=
  perform_build b op ▸ h.perform rfl

theorem Reaches.addParameters (h : w.Reaches ⟨u, ms, some b⟩) (arguments : List Argument) :
    w.Reaches ⟨u, ms, some (b.addParameters arguments)⟩ := by
  induction arguments generalizing b with
  | nil => exact h
  | cons a rest ih => exact ih (h.build (.addParameter a))

theorem Reaches.callOperator (h : w.Reaches ⟨u, ms, some b⟩) (l r : Ref) :
    w.Reaches ⟨u, ms, some (b.callOperator l r).2⟩ :=
  (h.build (.reference operatorCallee)).build (.call (b.reference operatorCallee).1 [l, r])

/-- **Lowering an expression is a run of operations.** -/
theorem Reaches.lower (h : w.Reaches ⟨u, ms, some b⟩) (e : Expression) :
    w.Reaches ⟨u, ms, some (e.lower b).2⟩ := by
  induction e generalizing b with
  | block inner ih =>
      exact ((ih (h.build .openBlock)).build (.append (inner.lower b.openBlock).1)).build .closeBlock
  | sequence first next ih ih' => exact ih' ((ih h).build (.append (first.lower b).1))
  | declaration d => exact h.build (.declare d)
  | binary op left right ih ih' =>
      unfold Expression.lower
      split
      · exact (ih (ih' h)).callOperator _ _
      · exact (ih' (ih h)).callOperator _ _
  | identifier name => exact h.build (.reference name)
  | number text => exact h.build (.literal .int text)
  | string text => exact h.build (.literal .string text)
  | char text => exact h.build (.literal .char text)
  | empty => exact h

theorem Reaches.lowerFunction {m : ModuleId} (h : w.Reaches ⟨u, m :: ms, none⟩) (f : FunctionDecl) :
    w.Reaches ⟨f.lower m u, m :: ms, none⟩ := by
  have started : w.Reaches ⟨u, m :: ms, some (u.startFunction m f.name)⟩ :=
    h.perform (c := .enterFunction f.name) rfl
  have signature := (started.addParameters f.arguments).build (.declareReturn f.returnType)
  have built : w.Reaches ⟨u, m :: ms, some (f.build (u.startFunction m f.name))⟩ :=
    (signature.lower (.block f.body)).build (.append _)
  exact built.perform (c := .leave) rfl

mutual

theorem Reaches.lowerItem {u : CompilationUnit} {m : ModuleId} {ms : List ModuleId}
    (h : w.Reaches ⟨u, m :: ms, none⟩) :
    ∀ item : Item, w.Reaches ⟨item.lower m u, m :: ms, none⟩
  | .module name items => by
      have entered : w.Reaches
          ⟨(u.addModule m name).2, (u.addModule m name).1 :: m :: ms, none⟩ :=
        h.perform (c := .enterModule name) rfl
      rw [Item.lower]
      exact (entered.lowerItems items).perform (c := .leave) rfl
  | .function f => by
      rw [Item.lower]
      exact h.lowerFunction f

/-- **Lowering declarations is a run of operations.** -/
theorem Reaches.lowerItems {u : CompilationUnit} {m : ModuleId} {ms : List ModuleId}
    (h : w.Reaches ⟨u, m :: ms, none⟩) :
    ∀ items : List Item, w.Reaches ⟨lowerItems m items u, m :: ms, none⟩
  | [] => by
      rw [FrontEnd.lowerItems]
      exact h
  | item :: rest => by
      rw [FrontEnd.lowerItems]
      exact (h.lowerItem item).lowerItems rest

end

end

/-- **Every command but the unchecked one is a run of operations.** -/
theorem reaches_perform (w : Workbench) {c : Command} (hc : c.isRegister = false) :
    w.Reaches (w.perform c).2 := by
  obtain ⟨u, ms, d⟩ := w
  cases c with
  | register entry => cases hc
  | lowerItems items =>
      cases d with
      | some b => exact .refl _
      | none =>
          cases ms with
          | nil => exact .refl _
          | cons m ms => exact (Reaches.refl _).lowerItems items
  | addParameters arguments =>
      cases d with
      | some b => exact (Reaches.refl _).addParameters arguments
      | none => cases ms <;> exact .refl _
  | lowerExpression e =>
      cases d with
      | some b => exact (Reaches.refl _).lower e
      | none => cases ms <;> exact .refl _
  | _ => exact (Reaches.refl _).perform rfl

/-! ### The invariant -/

/-- The register is the log of the requested types and of the unresolved variables of each function. -/
structure Registered (w : Workbench) : Prop where
  types : w.names.unresolved.toList.filter OpenName.isType = w.names.typeEntries
  uses : ∀ k, w.names.unresolved.toList.filter (OpenName.isOf k) =
    w.view.functions[k]?.elim [] (·.openEntries k)
  draft : ∀ b, w.function = some b → b.id = w.unit.functions.size ∧ b.Interned

/-- A step after which the register is the log again, with one more entry for each name that was left
open. -/
structure Logs (w w' : Workbench) (requests : List Request) : Prop where
  registered : w'.Registered
  entries : ∃ entries, w'.names.unresolved.toList = w.names.unresolved.toList ++ entries ∧
    List.Forall₂ (Registers w'.names w.unit.functions.size) requests entries

/-- A step that leaves no name open and changes no function. -/
theorem Registered.quiet (h : w.Registered) (hu : w'.names.unresolved = w.names.unresolved)
    (ht : w'.names.types = w.names.types) (hf : w'.view.functions = w.view.functions)
    (hd : ∀ b, w'.function = some b → b.id = w'.unit.functions.size ∧ b.Interned) :
    w.Logs w' [] := by
  refine ⟨⟨?_, fun k => ?_, hd⟩, [], by rw [hu, List.append_nil], .nil⟩
  · rw [hu, h.types]
    unfold Names.typeEntries
    rw [ht]
  · rw [hu, h.uses k, hf]

section

variable {u : CompilationUnit} {ms : List ModuleId} {b b' : Draft}

theorem Registered.start (h : (⟨u, ms, none⟩ : Workbench).Registered) (m : ModuleId) (name : String) :
    (⟨u, ms, none⟩ : Workbench).Logs ⟨u, ms, some (u.startFunction m name)⟩ [] := by
  have unbound : ∀ s symbol, (u.startFunction m name).function.bound? symbol s = none := by
    intro s symbol
    cases s <;> rfl
  refine ⟨⟨h.types, fun k => (h.uses k).trans ?_, fun b hb => ?_⟩, [], (List.append_nil _).symm, .nil⟩
  · show u.functions[k]?.elim _ _ = (u.functions.push _)[k]?.elim _ _
    rw [Array.getElem?_push]
    split
    · rename_i hk
      rw [hk, Array.getElem?_eq_none (Nat.le_refl _)]
      exact (Function.openEntries_fresh _ m _).symm
    · rfl
  · cases hb
    exact ⟨rfl, fun s symbol v hv => nomatch (unbound s symbol).symm.trans hv⟩

theorem Registered.setFunction (h : (⟨u, ms, some b⟩ : Workbench).Registered)
    {entries : List OpenName} (hr : b.Records b' entries) {requests : List Request}
    (he : List.Forall₂ (Registers b'.names b.id) requests entries) :
    (⟨u, ms, some b⟩ : Workbench).Logs ⟨u, ms, some b'⟩ requests := by
  obtain ⟨id, -⟩ := h.draft b rfl
  refine ⟨⟨?_, fun k => ?_, fun c hc => ?_⟩, entries, hr.register, id ▸ he⟩
  · have types : b.names.unresolved.toList.filter _ = b.names.typeEntries := h.types
    show b'.names.unresolved.toList.filter _ = b'.names.typeEntries
    rw [hr.register, hr.types, List.filter_append, types]
  · have uses : b.names.unresolved.toList.filter _ = _ := h.uses k
    show b'.names.unresolved.toList.filter _ = _
    rw [hr.register, List.filter_append, uses]
    show (u.functions.push _)[k]?.elim _ _ ++ _ = (u.functions.push _)[k]?.elim _ _
    rw [Array.getElem?_push, Array.getElem?_push]
    by_cases hk : k = u.functions.size
    · rw [if_pos hk, if_pos hk, hk, ← id]
      exact hr.uses.symm
    · have other : k ≠ b.id := fun hc => hk (hc.trans id)
      rw [if_neg hk, if_neg hk, hr.others k other, List.append_nil]
  · cases hc
    exact ⟨hr.id.trans id, hr.interned⟩

theorem Registered.freshType (h : (⟨u, ms, none⟩ : Workbench).Registered) (name : String) :
    (⟨u, ms, none⟩ : Workbench).Logs ⟨{ u with names := (u.names.freshType name).2 }, ms, none⟩
      [.type name] := by
  refine ⟨⟨?_, fun k => ?_, fun b hb => nomatch hb⟩, _, Names.unresolved_freshType u.names name,
    .cons (Names.registers_freshType _ (.refl _)) .nil⟩
  · have types : u.names.unresolved.toList.filter _ = u.names.typeEntries := h.types
    show (u.names.freshType name).2.unresolved.toList.filter _ = (u.names.freshType name).2.typeEntries
    rw [Names.unresolved_freshType, Names.typeEntries_freshType, List.filter_append, types]
    rfl
  · have uses : u.names.unresolved.toList.filter _ = _ := h.uses k
    show (u.names.freshType name).2.unresolved.toList.filter _ = _
    rw [Names.unresolved_freshType, List.filter_append, uses]
    exact List.append_nil _

end

/-- **An operation adds to the register what it leaves open, and the register stays the log.** -/
theorem Registered.perform (h : w.Registered) {c : Command} (hc : c.isBasic = true) :
    w.Logs (w.perform c).2 (w.requests c) := by
  obtain ⟨u, ms, d⟩ := w
  cases d with
  | some b =>
      cases c with
      | leave => exact h.quiet rfl rfl rfl fun _ hb => nomatch hb
      | build op =>
          obtain ⟨entries, records, registers⟩ := b.records_perform (h.draft b rfl).2 op
          have step : ((⟨u, ms, some b⟩ : Workbench).perform (.build op)).2 =
              ⟨u, ms, some (b.perform op).2⟩ := perform_build b op
          rw [step]
          exact h.setFunction records registers
      | lowerItems | addParameters | lowerExpression | register => cases hc
      | _ => exact h.quiet rfl rfl rfl h.draft
  | none =>
      cases ms with
      | cons m ms =>
          cases c with
          | enterFunction name => exact h.start m name
          | lowerItems => cases hc
          | _ => exact h.quiet rfl rfl rfl fun _ hb => nomatch hb
      | nil =>
          cases c with
          | freshType name => exact h.freshType name
          | register => cases hc
          | _ => exact h.quiet rfl rfl rfl fun _ hb => nomatch hb

/-- A run of operations leaves the older register as it was. -/
theorem Registered.performAll (h : w.Registered) {cs : List Command}
    (hcs : ∀ c ∈ cs, c.isBasic = true) :
    (w.performAll cs).2.Registered ∧
      w.names.unresolved.toList <+: (w.performAll cs).2.names.unresolved.toList := by
  induction cs generalizing w with
  | nil => exact ⟨h, List.prefix_rfl⟩
  | cons c cs ih =>
      obtain ⟨registered, entries, register, -⟩ := h.perform (hcs c List.mem_cons_self)
      obtain ⟨registered', grown⟩ := ih registered fun d hd => hcs d (List.mem_cons_of_mem c hd)
      exact ⟨registered', (register ▸ List.prefix_append _ entries).trans grown⟩

theorem Registered.of_reaches (h : w.Registered) (hr : w.Reaches w') :
    w'.Registered ∧ w.names.unresolved.toList <+: w'.names.unresolved.toList := by
  obtain ⟨cs, hcs, rfl⟩ := hr
  exact h.performAll hcs

theorem registered_fresh (log : Log) : (fresh log).Registered where
  types := rfl
  uses := fun k => by
    show [] = (#[] : Array Function)[k]?.elim [] _
    rfl
  draft := fun _ hb => nomatch hb

/-- Each run of commands, the unchecked one left aside, is a run of operations. -/
theorem reaches_performAll (w : Workbench) {cs : List Command}
    (hcs : ∀ c ∈ cs, c.isRegister = false) : w.Reaches (w.performAll cs).2 := by
  induction cs generalizing w with
  | nil => exact .refl w
  | cons c cs ih =>
      have first := w.reaches_perform (hcs c List.mem_cons_self)
      exact first.trans (ih (w.perform c).2 fun d hd => hcs d (List.mem_cons_of_mem c hd))

/-- **The register is an exact log, to which entries are only added.**  In every unit that commands build
without registering a name unchecked, the entries for types are the types in their order, with their
names, and the entries for variables of a function are its unresolved variables in their order, with
their names.  A command leaves the register as it was and puts its entries behind it.  One that is a
single operation adds one entry for each type that it asks for and one for a name that no scope on the
current chain binds, and no other; every other command is a run of such operations. -/
theorem register_exact (log : Log) {cs : List Command} (hcs : ∀ c ∈ cs, c.isRegister = false) :
    let w := ((Workbench.fresh log).performAll cs).2
    let register := fun w : Workbench => w.view.names.unresolved.toList
    (register w).filter OpenName.isType = w.view.names.typeEntries ∧
    (∀ k, (register w).filter (OpenName.isOf k) = w.view.functions[k]?.elim [] (·.openEntries k)) ∧
    (∀ c, c.isRegister = false → register w <+: register (w.perform c).2 ∧
      ∃ ds : List Command, (∀ d ∈ ds, d.isBasic = true) ∧ (w.performAll ds).2 = (w.perform c).2) ∧
    ∀ c, c.isBasic = true → ∃ entries, register (w.perform c).2 = register w ++ entries ∧
      List.Forall₂ (Registers (w.perform c).2.view.names w.unit.functions.size) (w.requests c)
        entries := by
  intro w register
  obtain ⟨registered, -⟩ := (registered_fresh log).of_reaches (reaches_performAll _ hcs)
  have names : ∀ w : Workbench, w.view.names = w.names := names_view
  simp only [register, names]
  refine ⟨registered.types, registered.uses, fun c hc => ?_, fun c hc => ?_⟩
  · have run := w.reaches_perform hc
    exact ⟨(registered.of_reaches run).2, run⟩
  · exact (registered.perform hc).entries

/-- A name is used before and behind its declaration: the first use is registered, and the type. -/
theorem register_exact_twoUses :
    let w := ((Workbench.fresh #[]).performAll [.enterRoot, .enterFunction "f",
      .build (.reference "x"), .build (.declare ⟨"x", some "int", true⟩), .build (.reference "x")]).2
    w.view.names.unresolved.toList = [.var 0 1 2, .type 0 3] ∧
      w.view.names.unresolved.toList.filter (OpenName.isOf 0) =
        w.view.functions[0]?.elim [] (·.openEntries 0) := by
  intro w
  refine ⟨by decide +kernel, ?_⟩
  exact (register_exact #[] (by decide)).2.1 0

end Workbench

end Hir

end FrontEnd
